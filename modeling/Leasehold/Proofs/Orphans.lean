import Leasehold.Proofs.CycleResult

/-! # The rows that a cycle deletes one by one

A cycle is told what is owned once it has collected, renewed and claimed what it could (`Stage.listed`). The
rows among them that nobody here has asked for are deleted one after the other, and no others are
(`Worker.Listed`). So a row without a slot is deleted singly just if it has not expired before: an expired
one has been collected by then (`Worker.Course.deletes_iff`).
-/

namespace Leasehold

/-- What the table will be when the cycle is told what is owned, from a stage on. -/
def Stage.listed (slots : Slots) (owner : String) (start expiration : Int) (held : Holdings) :
    Stage → Holdings
  | .purging _ _ | .selecting => held
  | .claiming => (Request.claimAbsent slots.wanted owner expiration).effect held
  | .refreshing => (Request.claimAbsent slots.wanted owner expiration).effect
      ((Request.refreshOwned owner expiration).effect held)
  | .collecting => (Request.claimAbsent slots.wanted owner expiration).effect
      ((Request.refreshOwned owner expiration).effect ((Request.deleteExpired start).effect held))

theorem Request.effect_claimNone (owner : String) (expiration : Int) (held : Holdings) :
    (Request.claimAbsent [] owner expiration).effect held = held := by
  funext name
  simp [Request.effect]

theorem Stage.listed_iff {slots : Slots} {name : String} (free : slots.find? name = none) (owner : String)
    (start expiration : Int) (held : Holdings) :
    (∃ e, Stage.collecting.listed slots owner start expiration held name = some ⟨owner, e⟩)
      ↔ ∃ e, start ≤ e ∧ held name = some ⟨owner, e⟩ := by
  have unwanted : name ∉ slots.wanted := by
    intro wanted
    have found := Worker.find?_of_wanted wanted
    simp [free] at found
  simp only [listed, Request.effect, unwanted, if_false, Option.or_none]
  cases held name with
  | none => simp
  | some h =>
    by_cases live : start ≤ h.expiration
    · by_cases mine : h.owner = owner
      · subst mine
        have same : ∃ e, start ≤ e ∧ h = ⟨h.owner, e⟩ := ⟨h.expiration, live, rfl⟩
        simpa [Option.filter_some, live] using same
      · have other (e : Int) : h ≠ ⟨owner, e⟩ := fun same => mine (congrArg Holding.owner same)
        simp [Option.filter_some, live, mine, other]
    · have dated (e : Int) (lasts : start ≤ e) : h ≠ ⟨owner, e⟩ :=
        fun same => live (le_of_le_of_eq lasts (congrArg Holding.expiration same).symm)
      simp only [Option.filter_some, live, decide_false, Bool.false_eq_true, if_false, Option.map_none,
        reduceCtorEq, exists_false, false_iff, not_exists, not_and, Option.some.injEq]
      exact dated

namespace Worker

variable {w w₀ : Worker} {s s₀ : Surroundings} {store store₀ : Backend} {notes : List Note} {c : Cycle}
  {name : String}

/-- The rows that a cycle has still to ask the store to delete. -/
def pending (w : Worker) : List String :=
  match w.activity with
  | .cycling c =>
    match c.stage with
    | .purging _ rest => rest
    | _ => []
  | _ => []

/-- The answer to what is owned is yet to come, or everything owned without a slot has been asked to be
    deleted, or will be. -/
inductive Listed (w₀ : Worker) (s₀ : Surroundings) (final : Holdings) (w : Worker) (store : Backend)
    (notes : List Note) : Prop where
  | asking (c : Cycle) (cycling : w.activity = .cycling c) (early : ∀ name rest, c.stage ≠ .purging name rest)
      (unanswered : ownedIn notes = none)
      (plan : c.stage.listed w₀.slots s₀.owner s₀.clock s₀.written store.held = final)
      (spared : ∀ name owner, .began .worker (.deleteOwned name owner) ∉ notes)
  | told (owned : List String) (answered : ownedIn notes = some owned)
      (holds : ∀ name, name ∈ owned ↔ ∃ e, final name = some ⟨s₀.owner, e⟩)
      (deletes : ∀ name, .began .worker (.deleteOwned name s₀.owner) ∈ notes ∨ name ∈ w.pending
        ↔ name ∈ w₀.orphans owned)

theorem deletes_purge (w : Worker) (s : Surroundings) (c : Cycle) (names : List String) (name : String) :
    .began .worker (.deleteOwned name s.owner) ∈ (w.purge s c names).2 ∨ name ∈ (w.purge s c names).1.pending
      ↔ name ∈ names := by
  cases names with
  | nil => simp [purge, endCycle, acknowledge, pending]
  | cons first rest => simp [purge, askNext, ask, pending]

/-- Before the list of what is owned, an answer takes one request off the plan and deletes no single row. -/
theorem resume_early (s : Surroundings) (reply : Reply) (asking : c.stage ≠ .selecting)
    (early : ∀ name rest, c.stage ≠ .purging name rest) (owner : String) (start expiration : Int) :
    ∃ c', (w.resume s c reply).1.activity = .cycling c' ∧ (∀ name rest, c'.stage ≠ .purging name rest)
      ∧ (∀ held, c'.stage.listed w.slots owner start expiration
            ((c.stage.question w.slots owner start expiration).effect held)
          = c.stage.listed w.slots owner start expiration held)
      ∧ ∀ name owner, .began .worker (.deleteOwned name owner) ∉ (w.resume s c reply).2 := by
  cases stage : c.stage with
  | collecting =>
    simp only [resume, stage]
    refine ⟨_, rfl, by simp, fun _ => rfl, fun name owner => ?_⟩
    split <;> simp [askNext, ask]
  | refreshing =>
    simp only [resume, stage]
    by_cases none : w.slots.wanted = []
    · rw [if_pos (by simp [none])]
      refine ⟨_, rfl, by simp, fun held => ?_, by simp [askNext, ask]⟩
      simp only [Stage.listed, none, Request.effect_claimNone]
      rfl
    · rw [if_neg (by simpa using none)]
      exact ⟨_, rfl, by simp, fun _ => rfl, by simp [askNext, ask]⟩
  | claiming =>
    simp only [resume, stage]
    exact ⟨_, rfl, by simp, fun _ => rfl, by simp [askNext, ask]⟩
  | selecting => exact absurd stage asking
  | purging name rest => exact absurd stage (early name rest)

/-- An answer brings the cycle nearer to the list of what is owned, or to the last deletion. -/
theorem Listed.next {final : Holdings} {reply : Reply} (listed : w₀.Listed s₀ final w store notes)
    (keyed : store.Keyed) (cycling : w.activity = .cycling c) (underway : w₀.Underway s₀ c w notes)
    (owner : s.owner = s₀.owner) (answered : (c.call.finish .worker s.trueTime store).1 = .ok reply) :
    w₀.Listed s₀ final (w.resume s c reply).1 (c.call.finish .worker s.trueTime store).2.1
      (notes ++ ((c.call.finish .worker s.trueTime store).2.2 ++ (w.resume s c reply).2)) := by
  obtain ⟨performed, after, _⟩ := Call.finish_ok answered
  have held := Backend.held_perform keyed performed
  have silent : ownedIn (w.resume s c reply).2 = none := ownedIn_of_plain (plain_resume c reply)
  have asks := underway.asks
  have deletions (name : String) : Note.began .worker (.deleteOwned name s₀.owner) ∈ notes
      ++ ((c.call.finish .worker s.trueTime store).2.2 ++ (w.resume s c reply).2)
      ↔ .began .worker (.deleteOwned name s₀.owner) ∈ notes
        ∨ .began .worker (.deleteOwned name s₀.owner) ∈ (w.resume s c reply).2 := by
    simp [not_began_finish]
  cases listed with
  | told owned answered' holds deletes =>
    refine .told owned (by rw [ownedIn_append, answered', Option.some_or]) holds fun name => ?_
    -- What is owned has been told, so the answer is one to a deletion.
    obtain ⟨name', rest, stage⟩ : ∃ name rest, c.stage = .purging name rest := by
      by_contra early
      push Not at early
      cases (underway.unanswered early).symm.trans answered'
    rw [← deletes name, deletions, or_assoc]
    have purged := w.deletes_purge s c rest name
    rw [owner] at purged
    simp only [resume, stage]
    rw [purged]
    simp [pending, cycling, stage]
  | asking c₁ cycling₁ early unanswered plan spared =>
    obtain rfl : c₁ = c := by
      rw [cycling] at cycling₁
      cases cycling₁
      rfl
    have slots := underway.slots unanswered
    by_cases selecting : c₁.stage = .selecting
    · rw [asks, selecting] at performed
      refine .told reply.nameList ?_ (fun name => ?_) fun name => ?_
      · simp [ownedIn_append, unanswered, silent, ownedIn_finish answered (by rw [asks, selecting]; rfl)]
      · rw [← plan, selecting]
        exact Backend.mem_nameList_selectOwned keyed performed name
      · rw [deletions]
        have purged := (w.reconcile s reply.nameList c₁.expiration).1.deletes_purge s c₁
          (w.orphans reply.nameList) name
        have quiet : .began .worker (.deleteOwned name s₀.owner)
            ∉ (w.reconcile s reply.nameList c₁.expiration).2 := by
          simp [reconcile, eventsOf]
        rw [owner] at purged
        simp only [resume, selecting, List.mem_append, quiet, spared, false_or]
        rw [purged]
        simp only [orphans, slots]
    · obtain ⟨c', cycling', early', plan', spared'⟩ :=
        resume_early (w := w) s reply selecting early s₀.owner s₀.clock s₀.written
      refine .asking c' cycling' early' ?_ ?_ ?_
      · simp [ownedIn_append, unanswered, silent,
          ownedIn_finish_of_other (underway.asks_otherwise selecting)]
      · rw [after, held, asks, ← plan, ← slots, underway.expiration]
        exact plan' store.held
      · intro name owner member
        simp only [List.mem_append, not_began_finish, spared, spared', or_self] at member

/-- As long as a cycle goes well and nobody else uses the store, the list of what is owned is that of the
    plan, and whatever is on it without a slot is asked to be deleted. -/
theorem Course.listed (course : w₀.Course Eq s₀ store₀ w store notes) (keyed : store₀.Keyed)
    (well : .cycleEnded false ∉ notes) : w₀.Listed s₀
      (Stage.collecting.listed w₀.slots s₀.owner s₀.clock s₀.written store₀.held) w store notes := by
  induction course with
  | begin draining step =>
    rw [begin_eq draining step]
    exact .asking _ rfl (by simp) rfl rfl (by simp [beginCycle, ask])
  | @next w s queue store _ notes c r before cycling meanwhile owner settings step ih =>
    subst meanwhile
    have well' : .cycleEnded false ∉ notes := fun failed => well (List.mem_append_left _ failed)
    rcases (move_of_step step).cycle_step cycling with ⟨reply, answered, rfl⟩ | ⟨_, e, called, _, _, _, _, noted⟩
    · exact (ih well').next (before.planned keyed well').1 cycling (before.underway cycling) owner answered
    · refine absurd ?_ well
      simp [noted, failCycle]

/-- A row without a slot is deleted singly by a successful cycle if it had not expired when the cycle began;
    no other row is. -/
theorem Course.deletes_iff (course : w₀.Course Eq s₀ store₀ w store notes) (keyed : store₀.Keyed)
    (ended : .cycleEnded true ∈ notes) (name : String) :
    .began .worker (.deleteOwned name s₀.owner) ∈ notes
      ↔ w₀.slots.find? name = none ∧ ∃ e, s₀.clock ≤ e ∧ ⟨name, s₀.owner, e⟩ ∈ store₀.rows := by
  obtain ⟨waiting, well⟩ := course.over ended
  have rows (e : Int) := Backend.mem_rows_iff keyed ⟨name, s₀.owner, e⟩
  simp only [rows]
  cases course.listed keyed well with
  | asking c cycling => cases waiting.symm.trans cycling
  | told owned answered holds deletes =>
    have none : name ∉ w.pending := by simp [pending, waiting]
    have asked := deletes name
    rw [mem_orphans, holds, or_iff_left none] at asked
    rw [asked, and_comm]
    exact and_congr_right fun free => Stage.listed_iff free _ _ _ _

end Worker

end Leasehold
