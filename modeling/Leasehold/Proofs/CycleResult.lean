import Leasehold.Proofs.CycleCourse
import Leasehold.Proofs.Ownership
import Leasehold.Proofs.Seclusion

/-! # What a successful cycle makes of the table

At every stage of a cycle it is settled what the rest of it will make of the table, if the store carries
out all that it is asked and nobody else changes a row meanwhile: `Stage.outcome`. An answer takes one
request off this plan and leaves its end as it is (`Stage.outcome_resume`). So the end of a successful
cycle can be told from the table, the slots and the clock that it began with.
-/

namespace Leasehold

/-! ## The plan of a cycle -/

/-- What is left once an owner has given up the rows of all these names. -/
def Holdings.without (held : Holdings) (names : List String) (owner : String) : Holdings := fun name =>
  (held name).filter fun h => !(decide (name ∈ names) && h.owner = owner)

/-- What is left once an owner has given up all rows that it has no slot for. -/
def Holdings.settled (held : Holdings) (slots : Slots) (owner : String) : Holdings := fun name =>
  (held name).filter fun h => (slots.find? name).isSome || h.owner ≠ owner

/-- What the rest of a cycle makes of the table, from a stage on. -/
def Stage.outcome (slots : Slots) (owner : String) (start expiration : Int) (held : Holdings) :
    Stage → Holdings
  | .purging name rest => held.without (name :: rest) owner
  | .selecting => held.settled slots owner
  | .claiming => ((Request.claimAbsent slots.wanted owner expiration).effect held).settled slots owner
  | .refreshing => ((Request.claimAbsent slots.wanted owner expiration).effect
      ((Request.refreshOwned owner expiration).effect held)).settled slots owner
  | .collecting => ((Request.claimAbsent slots.wanted owner expiration).effect
      ((Request.refreshOwned owner expiration).effect
        ((Request.deleteExpired start).effect held))).settled slots owner

namespace Holdings

variable {held : Holdings} {slots : Slots} {owner name : String}

theorem without_nil : held.without [] owner = held := by
  funext name
  cases there : held name <;> simp [without, there]

theorem without_cons (first : String) (rest : List String) :
    held.without (first :: rest) owner
      = ((Request.deleteOwned first owner).effect held).without rest owner := by
  funext name
  simp only [without, Request.effect, Option.filter_filter]
  congr 1
  funext h
  by_cases mine : h.owner = owner <;> by_cases same : name = first <;> simp [mine, same]

/-- To give up the owned names without a slot is to give up all rows without a slot. -/
theorem without_orphans {names : List String}
    (orphans : ∀ name, name ∈ names ↔ (∃ e, held name = some ⟨owner, e⟩) ∧ slots.find? name = none) :
    held.without names owner = held.settled slots owner := by
  funext name
  unfold without settled
  cases there : held name with
  | none => rfl
  | some h =>
    by_cases mine : h.owner = owner
    · have orphan : name ∈ names ↔ slots.find? name = none := by
        rw [orphans, there]
        subst mine
        exact ⟨And.right, fun free => ⟨⟨h.expiration, rfl⟩, free⟩⟩
      cases slot : slots.find? name <;> simp [Option.filter_some, orphan, slot, mine]
    · simp [Option.filter_some, mine]

theorem settled_of_slot {slot : Slot} (found : slots.find? name = some slot) :
    held.settled slots owner name = held name := by
  cases there : held name <;> simp [settled, there, found]

end Holdings

namespace Worker

variable {w w₀ : Worker} {s s₀ : Surroundings} {store store₀ : Backend} {notes : List Note} {b : Batch}
  {c c' : Cycle} {reply : Reply} {start : Int}

theorem mem_orphans {owned : List String} {name : String} :
    name ∈ w.orphans owned ↔ name ∈ owned ∧ w.slots.find? name = none := by
  simp [orphans, List.mem_eraseDups]

/-- What the rest of a cycle makes of the table after an answer: what it does if the cycle goes on, and
    nothing if it is over. -/
def planned (w : Worker) (slots : Slots) (owner : String) (start : Int) (held : Holdings) : Holdings :=
  match w.activity with
  | .cycling c => c.stage.outcome slots owner start c.expiration held
  | _ => held

theorem planned_purge (names : List String) (slots : Slots) (owner : String) (held : Holdings) :
    (w.purge s c names).1.planned slots owner start held = held.without names owner := by
  cases names with
  | nil => exact Holdings.without_nil.symm
  | cons name rest => rfl

/-- The rest of a cycle makes of the table what it would have made of it before the answer. -/
theorem planned_resume {slots : Slots} (keyed : store.Keyed)
    (early : (∀ name rest, c.stage ≠ .purging name rest) → w.slots = slots)
    (asks : c.call.request = c.stage.question slots s.owner start c.expiration)
    (answered : (c.call.finish .worker s.trueTime store).1 = .ok reply) :
    (w.resume s c reply).1.planned slots s.owner start (c.call.finish .worker s.trueTime store).2.1.held
      = c.stage.outcome slots s.owner start c.expiration store.held := by
  obtain ⟨performed, next, _⟩ := Call.finish_ok answered
  rw [next, Backend.held_perform keyed performed, asks]
  cases stage : c.stage with
  | collecting =>
    simp only [resume, stage]
    rfl
  | refreshing =>
    obtain rfl := early (by simp [stage])
    simp only [resume, stage]
    by_cases none : w.slots.wanted = []
    · -- A claim of no name, which is not made, would change nothing.
      have same (held : Holdings) :
          (Request.claimAbsent w.slots.wanted s.owner c.expiration).effect held = held := by
        funext name
        simp [Request.effect, none]
      rw [if_pos (by simp [none])]
      simp only [Stage.outcome, same]
      rfl
    · rw [if_neg (by simpa using none)]
      rfl
  | claiming =>
    simp only [resume, stage]
    rfl
  | selecting =>
    obtain rfl := early (by simp [stage])
    simp only [resume, stage, Stage.question, Request.effect]
    rw [planned_purge]
    apply Holdings.without_orphans
    intro name
    rw [asks, stage] at performed
    rw [mem_orphans, Backend.mem_nameList_selectOwned keyed performed]
  | purging name rest =>
    simp only [resume, stage]
    rw [planned_purge]
    exact (Holdings.without_cons name rest).symm

/-- Every slot has the flag that a table gives it, and the table has been confirmed. -/
structure InLine (w : Worker) (held : Holdings) (owner : String) (expiration : Int) : Prop where
  confirmed : w.confirmedUntil = some expiration
  flags : ∀ name slot, w.slots.find? name = some slot →
    (slot.acquired = true ↔ ∃ e, held name = some ⟨owner, e⟩)

/-- What a cycle that goes well will have made of the table. -/
def outcome (w₀ : Worker) (s₀ : Surroundings) (store₀ : Backend) : Holdings :=
  Stage.collecting.outcome w₀.slots s₀.owner s₀.clock s₀.written store₀.held

theorem inLine_reconcile {final : Holdings} {owned : List String} {owner : String}
    (told : ∀ name, name ∈ owned ↔ ∃ e, store.held name = some ⟨owner, e⟩)
    (plan : store.held.settled w.slots owner = final) (expiration : Int) :
    (w.reconcile s owned expiration).1.InLine final owner expiration := by
  refine ⟨rfl, fun name slot found => ?_⟩
  change (w.slots.assign owned.contains).find? name = some slot at found
  rw [Slots.find?_assign] at found
  obtain ⟨old, there, rfl⟩ := Option.map_eq_some_iff.mp found
  rw [← plan, Holdings.settled_of_slot there, ← told]
  simp

theorem informed_of_resume (late : ∀ c', (w.resume s c reply).1.activity = .cycling c' →
    ∃ name rest, c'.stage = .purging name rest) :
    c.stage = .selecting ∨ ∃ name rest, c.stage = .purging name rest := by
  cases stage : c.stage with
  | collecting =>
    simp only [resume, stage] at late
    obtain ⟨_, _, purging⟩ := late _ rfl
    cases purging
  | refreshing =>
    simp only [resume, stage] at late
    split at late
    · obtain ⟨_, _, purging⟩ := late _ rfl
      cases purging
    · obtain ⟨_, _, purging⟩ := late _ rfl
      cases purging
  | claiming =>
    simp only [resume, stage] at late
    obtain ⟨_, _, purging⟩ := late _ rfl
    cases purging
  | selecting => exact .inl rfl
  | purging name rest => exact .inr ⟨name, rest, rfl⟩

theorem inLine_resume {slots : Slots} {final : Holdings} (keyed : store.Keyed)
    (asks : c.call.request = c.stage.question slots s.owner start c.expiration)
    (answered : (c.call.finish .worker s.trueTime store).1 = .ok reply)
    (plan : c.stage = .selecting → store.held.settled w.slots s.owner = final)
    (inLine : (∃ name rest, c.stage = .purging name rest) → w.InLine final s.owner c.expiration)
    (late : ∀ c', (w.resume s c reply).1.activity = .cycling c' →
      ∃ name rest, c'.stage = .purging name rest) :
    (w.resume s c reply).1.InLine final s.owner c.expiration := by
  rcases w.resume_eq s c reply with ⟨other, activity, eq⟩ | ⟨selecting, activity, eq⟩
  · have before := inLine ((informed_of_resume late).resolve_left other)
    rw [eq]
    exact ⟨before.confirmed, before.flags⟩
  · obtain ⟨performed, _, _⟩ := Call.finish_ok answered
    rw [asks, selecting] at performed
    have told := inLine_reconcile (s := s) (Backend.mem_nameList_selectOwned keyed performed)
      (plan selecting) c.expiration
    rw [eq]
    exact ⟨told.confirmed, told.flags⟩

/-- A cycle that goes well keeps to its plan, and brings the slots in line with what comes of it. -/
theorem Course.planned (course : w₀.Course Eq s₀ store₀ w store notes) (keyed : store₀.Keyed)
    (well : .cycleEnded false ∉ notes) :
    store.Keyed ∧ w.planned w₀.slots s₀.owner s₀.clock store.held = w₀.outcome s₀ store₀
      ∧ ((∀ c, w.activity = .cycling c → ∃ name rest, c.stage = .purging name rest) →
        w.InLine (w₀.outcome s₀ store₀) s₀.owner s₀.written) := by
  induction course with
  | begin draining step =>
    rw [begin_eq draining step]
    refine ⟨keyed, rfl, fun purging => ?_⟩
    obtain ⟨name, rest, stage⟩ := purging _ rfl
    cases stage
  | @next w s queue store _ notes c r before cycling meanwhile owner settings step ih =>
    subst meanwhile
    obtain ⟨keyed', plan, inLine⟩ := ih fun failed => well (List.mem_append_left _ failed)
    have underway := before.underway cycling
    rcases (move_of_step step).cycle_step cycling with ⟨reply, answered, rfl⟩ | ⟨_, e, called, _, _, _, _, noted⟩
    · have early (other : ∀ name rest, c.stage ≠ .purging name rest) : w.slots = w₀.slots :=
        underway.slots (underway.unanswered other)
      have asks : c.call.request = c.stage.question w₀.slots s.owner s₀.clock c.expiration :=
        owner ▸ underway.asks
      have planned : c.stage.outcome w₀.slots s.owner s₀.clock c.expiration store.held
          = w₀.outcome s₀ store₀ := by
        simpa only [Worker.planned, cycling, owner] using plan
      refine ⟨Call.keyed_finish _ _ _ keyed', ?_, fun purging => ?_⟩
      · rw [← planned, ← owner]
        exact planned_resume keyed' early asks answered
      · rw [← owner, ← underway.expiration]
        apply inLine_resume keyed' asks answered
        · intro selecting
          rw [early (by simp [selecting]), ← planned, selecting]
          rfl
        · intro late
          rw [owner, underway.expiration]
          apply inLine
          intro c' cycling'
          rw [cycling] at cycling'
          cases cycling'
          exact late
        · exact purging
    · refine absurd ?_ well
      simp [noted, failCycle]

end Worker

/-! ## Reading the plan -/

/-- A slot has a row after a cycle: its owner had one that had not expired, or the slot is free and nobody
    had one. -/
def Slots.Earns (slots : Slots) (owner : String) (start : Int) (rows : List Record) (name : String) :
    Prop :=
  ∃ slot, slots.find? name = some slot
    ∧ ((∃ e, ⟨name, owner, e⟩ ∈ rows ∧ start ≤ e)
      ∨ slot.acquired = false ∧ ∀ other e, ⟨name, other, e⟩ ∈ rows → e < start)

namespace Slots

theorem mem_wanted_iff {slots : Slots} (keyed : slots.Keyed) {name : String} :
    name ∈ slots.wanted ↔ ∃ slot, slots.find? name = some slot ∧ slot.acquired = false := by
  constructor
  · intro wanted
    obtain ⟨⟨_, slot⟩, member, rfl⟩ := List.mem_map.mp wanted
    obtain ⟨there, free⟩ := List.mem_filter.mp member
    exact ⟨slot, find?_of_mem keyed there, by simpa using free⟩
  · rintro ⟨slot, found, free⟩
    exact Worker.mem_wanted found free

end Slots

namespace Worker

variable {w₀ : Worker} {s₀ : Surroundings} {store₀ : Backend} {name : String}

/-- The outcome for one name: a row of another that has not expired stays; one's own is renewed if there is a
    slot for it; where there is none, a free slot gets one. -/
theorem outcome_eq (name : String) : w₀.outcome s₀ store₀ name
    = match (store₀.held name).filter fun h => s₀.clock ≤ h.expiration with
      | some h =>
        if h.owner = s₀.owner then
          if (w₀.slots.find? name).isSome then some ⟨s₀.owner, s₀.written⟩ else none
        else some h
      | none => if name ∈ w₀.slots.wanted then some ⟨s₀.owner, s₀.written⟩ else none := by
  simp only [outcome, Stage.outcome, Holdings.settled, Request.effect]
  cases (store₀.held name).filter fun h => s₀.clock ≤ h.expiration with
  | some h => by_cases mine : h.owner = s₀.owner <;> simp [mine, Option.filter_some]
  | none =>
    by_cases wanted : name ∈ w₀.slots.wanted
    · simp [wanted, Option.filter_some, find?_of_wanted wanted]
    · simp [wanted]

theorem outcome_other {other : String} (foreign : other ≠ s₀.owner) (e : Int) :
    w₀.outcome s₀ store₀ name = some ⟨other, e⟩
      ↔ store₀.held name = some ⟨other, e⟩ ∧ s₀.clock ≤ e := by
  have there : store₀.held name = some ⟨other, e⟩ ∧ s₀.clock ≤ e
      ↔ ((store₀.held name).filter fun h => s₀.clock ≤ h.expiration) = some ⟨other, e⟩ := by
    simp [Option.filter_eq_some_iff]
  rw [outcome_eq, there]
  cases (store₀.held name).filter fun h => s₀.clock ≤ h.expiration with
  | none => by_cases wanted : name ∈ w₀.slots.wanted <;> simp [wanted, foreign.symm]
  | some h =>
    by_cases mine : h.owner = s₀.owner
    · have apart : h ≠ ⟨other, e⟩ := by
        rintro rfl
        exact foreign mine
      cases w₀.slots.find? name <;> simp [mine, apart, foreign.symm]
    · simp [mine]

/-- An owner has the rows that its slots earn, with the expiration that the cycle writes, and no others. -/
theorem outcome_own (keyed : w₀.slots.Keyed) (keyed' : store₀.Keyed) (e : Int) :
    w₀.outcome s₀ store₀ name = some ⟨s₀.owner, e⟩
      ↔ e = s₀.written ∧ w₀.slots.Earns s₀.owner s₀.clock store₀.rows name := by
  have rows (owner : String) (e : Int) : ⟨name, owner, e⟩ ∈ store₀.rows ↔ store₀.held name = some ⟨owner, e⟩ :=
    Backend.mem_rows_iff keyed' ⟨name, owner, e⟩
  unfold Slots.Earns
  simp only [rows]
  rw [outcome_eq]
  cases lasting : (store₀.held name).filter fun h => s₀.clock ≤ h.expiration with
  | none =>
    have expired (owner : String) (e : Int) (there : store₀.held name = some ⟨owner, e⟩) :
        e < s₀.clock := by
      rw [there] at lasting
      simpa using lasting
    have earns : name ∈ w₀.slots.wanted ↔ ∃ slot, w₀.slots.find? name = some slot
        ∧ ((∃ e, store₀.held name = some ⟨s₀.owner, e⟩ ∧ s₀.clock ≤ e)
          ∨ slot.acquired = false ∧ ∀ other e, store₀.held name = some ⟨other, e⟩ → e < s₀.clock) := by
      rw [Slots.mem_wanted_iff keyed]
      constructor
      · rintro ⟨slot, found, free⟩
        exact ⟨slot, found, .inr ⟨free, expired⟩⟩
      · rintro ⟨slot, found, ⟨e, there, lasts⟩ | ⟨free, _⟩⟩
        · exact absurd lasts (not_le.mpr (expired _ e there))
        · exact ⟨slot, found, free⟩
    rw [← earns]
    by_cases wanted : name ∈ w₀.slots.wanted <;> simp [wanted, eq_comm]
  | some h =>
    obtain ⟨there, lasts⟩ := Option.filter_eq_some_iff.mp lasting
    replace lasts : s₀.clock ≤ h.expiration := by simpa using lasts
    rw [there]
    dsimp only
    by_cases mine : h.owner = s₀.owner
    · rw [if_pos mine]
      cases w₀.slots.find? name with
      | none => simp
      | some slot =>
        constructor
        · intro same
          cases same
          exact ⟨rfl, slot, rfl, .inl ⟨h.expiration, by rw [← mine], lasts⟩⟩
        · rintro ⟨rfl, _⟩
          rfl
    · rw [if_neg mine]
      constructor
      · intro same
        cases same
        exact absurd rfl mine
      · rintro ⟨_, slot, _, ⟨e, same, _⟩ | ⟨_, expired⟩⟩
        · cases same
          exact absurd rfl mine
        · -- The row of another stays in the way of the slot.
          have late := expired h.owner h.expiration rfl
          omega

/-! ## Cycles on a clear link -/

section Clear

variable {w : Worker} {store : Backend} {notes : List Note} {c : Cycle}

/-- The cycle can succeed, from what it begins with and as long as nobody else uses the store. -/
def Succeeds (w₀ : Worker) (s₀ : Surroundings) (store₀ : Backend) : Prop :=
  ∃ w store notes, w₀.Course Eq s₀ store₀ w store notes ∧ .cycleEnded true ∈ notes

theorem question_keeps (stage : Stage) (slots : Slots) (owner : String) (start expiration : Int) :
    stage.question slots owner start expiration ≠ .dropSchema := by
  cases stage <;> simp [Stage.question]

theorem Course.answered (course : w₀.Course Eq s₀ store₀ w store notes) (cycling : w.activity = .cycling c)
    (prompt : c.call.Prompt s₀.now) (ready : store.isReady = true) :
    ∃ reply store' called, store'.isReady = true
      ∧ w₀.Course Eq s₀ store₀ (w.resume s₀ c reply).1 store' (called ++ (w.resume s₀ c reply).2) := by
  have keeps : c.call.request ≠ .dropSchema := by
    rw [(course.underway cycling).asks]
    exact question_keeps _ _ _ _ _
  cases result : (c.call.finish .worker s₀.trueTime store).1 with
  | error e => exact absurd result (prompt.not_failed ready .worker s₀.trueTime e)
  | ok reply =>
    have step : w.step s₀ [] store = some ⟨(w.resume s₀ c reply).1, [],
        (c.call.finish .worker s₀.trueTime store).2.1,
        (c.call.finish .worker s₀.trueTime store).2.2 ++ (w.resume s₀ c reply).2⟩ := by
      simp [Worker.step, cycling, prompt.due, result]
    have next := course.next cycling rfl rfl rfl step
    rw [← List.append_assoc] at next
    exact ⟨reply, _, _, Call.isReady_finish _ _ _ ready keeps, next⟩

theorem succeeds_of_purge (clear : s₀.link = .clear) (names : List String)
    (course : w₀.Course Eq s₀ store₀ (w.purge s₀ c names).1 store (notes ++ (w.purge s₀ c names).2))
    (ready : store.isReady = true) : w₀.Succeeds s₀ store₀ := by
  induction names generalizing w c store notes with
  | nil => exact ⟨_, _, _, course, by simp [purge, endCycle]⟩
  | cons name rest ih =>
    have prompt := Call.prompt_place s₀.now (.deleteOwned name s₀.owner)
    rw [← clear] at prompt
    obtain ⟨reply, store', called, ready', next⟩ := course.answered rfl prompt ready
    exact ih next ready'

/-- On a clear link, a cycle succeeds whatever it has come to ask. -/
theorem Course.succeeds (clear : s₀.link = .clear) (course : w₀.Course Eq s₀ store₀ w store notes)
    (cycling : w.activity = .cycling c) (prompt : c.call.Prompt s₀.now) (ready : store.isReady = true) :
    w₀.Succeeds s₀ store₀ := by
  have placed (request : Request) : (Call.place s₀.link s₀.now request).Prompt s₀.now := by
    rw [clear]
    exact Call.prompt_place s₀.now request
  -- Each stage leads to a later one, up to the deletions, which follow the list of the rows to delete.
  induction left : 4 - c.stage.index using Nat.strong_induction_on generalizing w c store notes with
  | _ n ih =>
    obtain ⟨reply, store', called, ready', next⟩ := course.answered cycling prompt ready
    cases stage : c.stage with
    | collecting =>
      simp only [resume, stage] at next
      exact ih 3 (by rw [← left, stage]; decide) next rfl (placed _) ready' rfl
    | refreshing =>
      simp only [resume, stage] at next
      by_cases none : w.slots.wanted.isEmpty = true
      · rw [if_pos none] at next
        exact ih 1 (by rw [← left, stage]; decide) next rfl (placed _) ready' rfl
      · rw [if_neg none] at next
        exact ih 2 (by rw [← left, stage]; decide) next rfl (placed _) ready' rfl
    | claiming =>
      simp only [resume, stage] at next
      exact ih 1 (by rw [← left, stage]; decide) next rfl (placed _) ready' rfl
    | selecting =>
      rw [resume_of_selecting stage, ← List.append_assoc] at next
      simp only [resume, stage] at next
      exact succeeds_of_purge clear _ next ready'
    | purging name rest =>
      simp only [resume, stage] at next
      exact succeeds_of_purge clear _ next ready'

theorem succeeds_of_clear {b : Batch} (draining : w₀.activity = .draining b) (clear : s₀.link = .clear)
    (ready : store₀.isReady = true) : w₀.Succeeds s₀ store₀ := by
  have step : w₀.step s₀ [] store₀
      = some ⟨(w₀.beginCycle s₀ b.tickets).1, [], store₀, (w₀.beginCycle s₀ b.tickets).2⟩ := by
    simp only [Worker.step, draining]
  have prompt : (Call.place s₀.link s₀.now (.deleteExpired s₀.clock)).Prompt s₀.now := by
    rw [clear]
    exact Call.prompt_place s₀.now _
  exact (Course.begin draining step).succeeds clear rfl prompt ready

end Clear

/-- The table after a successful cycle, the slots and the events, from any table and any slots: foreign rows
    that have not expired are left; own rows are those that a slot earns, renewed; every slot has the flag
    of its row; whoever changes is told once. On a clear link to a store that is ready the cycle does
    succeed. -/
theorem successful_cycle {b : Batch} (draining : w₀.activity = .draining b) (keyed : w₀.slots.Keyed)
    (keyed' : store₀.Keyed) :
    (s₀.link = .clear → store₀.isReady = true → w₀.Succeeds s₀ store₀)
      ∧ ∀ w store notes, w₀.Course Eq s₀ store₀ w store notes → .cycleEnded true ∈ notes →
        (∀ row, row.owner ≠ s₀.owner →
            (row ∈ store.rows ↔ row ∈ store₀.rows ∧ s₀.clock ≤ row.expiration))
          ∧ (∀ name e, ⟨name, s₀.owner, e⟩ ∈ store.rows
            ↔ e = s₀.written ∧ w₀.slots.Earns s₀.owner s₀.clock store₀.rows name)
          ∧ (store.rows.map Record.name).Nodup
          ∧ (∀ name, (∃ slot, w.slots.find? name = some slot ∧ slot.acquired = true)
            ↔ ∃ e, ⟨name, s₀.owner, e⟩ ∈ store.rows)
          ∧ (∀ name, eventsAbout name notes = w₀.slots.announced w.slots name)
          ∧ w.confirmedUntil = some s₀.written
          ∧ w.slots.ledger = w₀.slots.ledger := by
  refine ⟨fun clear ready => succeeds_of_clear draining clear ready, ?_⟩
  intro w store notes course ended
  obtain ⟨waiting, well⟩ := course.over ended
  obtain ⟨keyed'', plan, inLine⟩ := course.planned keyed' well
  have follows := course.follows well
  have held : store.held = w₀.outcome s₀ store₀ := by simpa only [planned, waiting] using plan
  have lined := inLine fun c cycling => by
    rw [waiting] at cycling
    cases cycling
  have own (name : String) (e : Int) : ⟨name, s₀.owner, e⟩ ∈ store.rows
      ↔ e = s₀.written ∧ w₀.slots.Earns s₀.owner s₀.clock store₀.rows name := by
    rw [Backend.mem_rows_iff keyed'', held, outcome_own keyed keyed']
  have ledger : w.slots.ledger = w₀.slots.ledger := by
    rw [follows.worker]
    exact ledger_learn w₀ _ _
  refine ⟨fun row foreign => ?_, own, Backend.nodup_rows keyed'', fun name => ⟨?_, ?_⟩,
    follows.told keyed, lined.confirmed, ledger⟩
  · rw [Backend.mem_rows_iff keyed'', held, outcome_other foreign, Backend.mem_rows_iff keyed']
  · rintro ⟨slot, found, acquired⟩
    obtain ⟨e, there⟩ := (lined.flags name slot found).mp acquired
    exact ⟨e, (Backend.mem_rows_iff keyed'' ⟨name, s₀.owner, e⟩).mpr (held ▸ there)⟩
  · rintro ⟨e, member⟩
    -- What has a row has a slot, so no row is left that nobody here asked for.
    obtain ⟨_, old, there, _⟩ := (own name e).mp member
    have tracked : ((w.slots.find? name).map Slot.id).isSome = true := by
      rw [← Slots.lookup_ledger, ledger, Slots.lookup_ledger, there]
      rfl
    obtain ⟨slot, found⟩ := Option.isSome_iff_exists.mp (by simpa using tracked)
    refine ⟨slot, found, (lined.flags name slot found).mpr ⟨e, ?_⟩⟩
    rw [← held]
    exact (Backend.mem_rows_iff keyed'' ⟨name, s₀.owner, e⟩).mp member

/-- A lease that is held and has expired is lost and not claimed again, a row that is owned without a flag is
    adopted, and a row without a slot goes; the row of somebody else is left. -/
theorem successful_cycle_leftovers :
    let w₀ : Worker := { fresh with
      slots := [("held", ⟨0, true⟩), ("lost", ⟨1, true⟩), ("found", ⟨2, false⟩), ("taken", ⟨3, false⟩)],
      activity := .draining .empty }
    let store₀ : Backend := .memory ⟨[("held", ⟨"a", 7⟩), ("lost", ⟨"a", 4⟩), ("found", ⟨"a", 5⟩),
      ("taken", ⟨"b", 9⟩), ("stray", ⟨"a", 6⟩)]⟩
    w₀.slots.Keyed ∧ store₀.Keyed ∧ ∃ w store notes, w₀.Course Eq (solo 5 .clear) store₀ w store notes
      ∧ .cycleEnded true ∈ notes ∧ ⟨"taken", "b", 9⟩ ∈ store.rows
      ∧ ∀ name e, ⟨name, "a", e⟩ ∈ store.rows ↔ e = 13 ∧ (name = "held" ∨ name = "found") := by
  intro w₀ store₀
  have keyed : w₀.slots.Keyed := by simp [w₀, Slots.Keyed, Slots.ledger]
  have keyed' : store₀.Keyed := by simp [store₀, Backend.Keyed, Backend.asMemory, MemoryStore.Keyed]
  obtain ⟨succeeds, result⟩ : (_ → _ → w₀.Succeeds (solo 5 .clear) store₀) ∧ _ :=
    successful_cycle (b := .empty) rfl keyed keyed'
  obtain ⟨w, store, notes, course, ended⟩ := succeeds rfl rfl
  obtain ⟨others, own, _⟩ := result w store notes course ended
  refine ⟨keyed, keyed', w, store, notes, course, ended, ?_, fun name e => ?_⟩
  · rw [others _ (by decide)]
    decide
  · refine (own name e).trans (and_congr (by rfl) ?_)
    constructor
    · rintro ⟨slot, found, earned⟩
      have member := Keyed.mem_of_lookup found
      simp only [w₀, List.mem_cons, Prod.mk.injEq, List.not_mem_nil, or_false] at member
      rcases member with ⟨rfl, rfl⟩ | ⟨rfl, rfl⟩ | ⟨rfl, rfl⟩ | ⟨rfl, rfl⟩
      · exact .inl rfl
      · rcases earned with ⟨e, there, lasts⟩ | ⟨free, _⟩
        · have row : (some ⟨"a", 4⟩ : Option Holding) = some ⟨"a", e⟩ := (Backend.mem_rows_iff keyed' _).mp there
          cases row
          exact absurd lasts (by decide)
        · cases free
      · exact .inr rfl
      · rcases earned with ⟨e, there, _⟩ | ⟨_, expired⟩
        · have row : (some ⟨"b", 9⟩ : Option Holding) = some ⟨"a", e⟩ := (Backend.mem_rows_iff keyed' _).mp there
          simp at row
        · exact absurd (expired "b" 9 (by decide)) (by decide)
    · rintro (rfl | rfl)
      · exact ⟨⟨0, true⟩, rfl, .inl ⟨7, by decide, by decide⟩⟩
      · exact ⟨⟨2, false⟩, rfl, .inl ⟨5, by decide, by decide⟩⟩

end Worker

end Leasehold
