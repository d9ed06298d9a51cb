import Leasehold.Proofs.Ownership

/-! # What has been carried out on a store

No world remembers what has been carried out on a store, and for whom. `World.tally` reads it off a run,
as far as it matters for the leases of one worker: since the worker last learned what it owns, and since
the cycle that taught it had refreshed the rows.
-/

namespace Leasehold

namespace Note

/-- Whether a note says that a worker has learned what it owns. -/
def tellsOwned : Note → Bool
  | answered .worker (.selectOwned _) _ => true
  | _ => false

/-- Whether a note says that a worker has refreshed its rows. -/
def refreshes : Note → Bool
  | effect .worker (.refreshOwned _ _) => true
  | _ => false

end Note

theorem refreshes_eq_false {notes : List Note}
    (other : ∀ o e, (.worker, .refreshOwned o e) ∉ effectsIn notes) :
    notes.any Note.refreshes = false := by
  rw [List.any_eq_false]
  intro n member refreshes
  cases n with
  | effect caller request =>
    cases caller with
    | worker =>
      cases request with
      | refreshOwned o e => exact other o e (List.mem_filterMap.mpr ⟨_, member, rfl⟩)
      | _ => cases refreshes
    | _ => cases refreshes
  | _ => cases refreshes

/-- Writes, for this owner and under this name, an end before this point. -/
def Request.Undercuts (owner name : String) (point : Int) : Request → Prop
  | .refreshOwned o e => o = owner ∧ e < point
  | .claimAbsent names o e => name ∈ names ∧ o = owner ∧ e < point
  | _ => False

/-- What has been carried out on a store and for whom, the latest first, as far as it matters for what a
    worker has confirmed. -/
structure Tally where
  /-- Since the worker learned what it owns. -/
  sinceLearned : List (Caller × Request) := []
  /-- Up to then, since the cycle that taught the worker had refreshed its rows. -/
  untilLearned : List (Caller × Request) := []
  /-- Since the worker last refreshed its rows. -/
  recent : List (Caller × Request) := []
  deriving Repr, DecidableEq

namespace Tally

variable {t : Tally} {done : List (Caller × Request)} {news : List Note} {i : Nat}
  {owner name : String} {point : Int}

/-- When more has been done, and the worker has news. -/
def next (t : Tally) (done : List (Caller × Request)) (news : List Note) : Tally :=
  let recent := if news.any Note.refreshes then [] else done ++ t.recent
  if news.any Note.tellsOwned then ⟨[], t.recent, recent⟩
  else ⟨done ++ t.sinceLearned, t.untilLearned, recent⟩

theorem next_of_silent (t : Tally) (done : List (Caller × Request))
    (silent : news.any Note.tellsOwned = false) :
    (t.next done news).sinceLearned = done ++ t.sinceLearned
      ∧ (t.next done news).untilLearned = t.untilLearned := by
  simp only [next, silent]
  exact ⟨rfl, rfl⟩

theorem next_of_learned (learned : news.any Note.tellsOwned = true) :
    (t.next done news).untilLearned = t.recent := by
  simp only [next, learned, if_true]

theorem recent_next (other : news.any Note.refreshes = false) :
    (t.next done news).recent = done ++ t.recent := by
  simp only [next, other]
  split <;> rfl

/-- Nothing has been carried out that matters for the row that a participant has under this name, up to
    the point to which its leases are confirmed. Since the participant learned what it owns, no rows that
    end at the point have been collected; and of its own calls that it had given up, none has deleted the
    row or moved its end before the point. Before that, but after the rows had been refreshed, none of
    these has written an end before the point. -/
structure Spares (t : Tally) (i : Nat) (owner name : String) (point : Int) : Prop where
  collected : ∀ caller now, (caller, .deleteExpired now) ∈ t.sinceLearned → now ≤ point
  deleted : (.adrift i, .deleteOwned name owner) ∉ t.sinceLearned
  moved : ∀ e, (.adrift i, .refreshOwned owner e) ∈ t.sinceLearned → point ≤ e
  written : ∀ r, (.adrift i, r) ∈ t.untilLearned → ¬ r.Undercuts owner name point

/-- Since the rows were last refreshed, a call that the participant had given up has written an end
    before the point. -/
def Stale (t : Tally) (i : Nat) (owner name : String) (point : Int) : Prop :=
  ∃ r, (.adrift i, r) ∈ t.recent ∧ r.Undercuts owner name point

theorem Spares.of_next (h : (t.next done news).Spares i owner name point)
    (silent : news.any Note.tellsOwned = false) : t.Spares i owner name point := by
  obtain ⟨since, before⟩ := next_of_silent t done silent
  obtain ⟨collected, deleted, moved, written⟩ := h
  rw [since] at collected deleted moved
  rw [before] at written
  exact ⟨fun caller now member => collected caller now (List.mem_append_right _ member),
    fun member => deleted (List.mem_append_right _ member),
    fun e member => moved e (List.mem_append_right _ member), written⟩

theorem Stale.not_spares_next (h : t.Stale i owner name point)
    (learned : news.any Note.tellsOwned = true) : ¬ (t.next done news).Spares i owner name point := by
  obtain ⟨r, member, undercuts⟩ := h
  exact fun spares => spares.written r (next_of_learned learned ▸ member) undercuts

theorem Stale.next (h : t.Stale i owner name point) (other : news.any Note.refreshes = false) :
    (t.next done news).Stale i owner name point := by
  obtain ⟨r, member, undercuts⟩ := h
  exact ⟨r, recent_next other ▸ List.mem_append_right _ member, undercuts⟩

end Tally

namespace World

variable {w w' : World} {a : Action} {i n : Nat} {p q : Participant} {m : Manager} {b : Backend}
  {notes : List Note} {t : Tally}

/-! ## What one action has carried out -/

/-- The store that a line of the journal is about, given the action that has added it. -/
def storeOfEntry (w : World) (a : Action) (e : Entry) : Option Nat :=
  match e.participant, a with
  | some i, _ => w.participants[i]?.map (·.store)
  | none, .use store _ => some store
  | none, .land place => do (← w.participants[(← w.adrift[place]?).participant]?).store
  | none, _ => none

/-- What an action has had carried out on a store, and for whom, the latest first. -/
def carriedOut (w w' : World) (a : Action) (n : Nat) : List (Caller × Request) :=
  (w'.journal.take (w'.journal.length - w.journal.length)).filterMap fun e =>
    if w.storeOfEntry a e = some n then e.note.effect? else none

theorem carriedOut_of_lines {lines : List Entry} (journal : w'.journal = lines ++ w.journal) :
    w.carriedOut w' a n = lines.filterMap fun e =>
      if w.storeOfEntry a e = some n then e.note.effect? else none := by
  rw [carriedOut, journal, List.length_append, Nat.add_sub_cancel, List.take_left]

theorem Moved.mem_carriedOut (moved : w.Moved i p m b notes w') {e : Caller × Request}
    (told : e ∈ effectsIn notes) : e ∈ w.carriedOut w' a p.store := by
  obtain ⟨note, member, effect⟩ := List.mem_filterMap.mp told
  rw [carriedOut_of_lines moved.journal, List.mem_filterMap]
  refine ⟨⟨w.now, some i, note⟩, List.mem_reverse.mpr (List.mem_map_of_mem member), ?_⟩
  simp [storeOfEntry, moved.present, effect]

/-- A request that no manager waits for leaves the rows of a store alone, or is carried out on it. -/
theorem held_of_noted {store : Nat} {caller : Caller} {request : Request}
    (found : w.stores[store]? = some b) (keyed : b.Keyed)
    (stores : w'.stores = w.stores.set store (b.perform w.trueTime request).2)
    (journal : w'.journal = ((Call.effectNotes b caller request
      (b.perform w.trueTime request).1).map fun n => ⟨w.now, none, n⟩).reverse ++ w.journal)
    (about : ∀ note, w.storeOfEntry a ⟨w.now, none, note⟩ = some store) (p : Participant) :
    (w'.storeOf p).held = (w.storeOf p).held
      ∨ p.store = store ∧ (caller, request) ∈ w.carriedOut w' a store
        ∧ (w'.storeOf p).held = request.effect (w.storeOf p).held := by
  by_cases other : p.store = store
  · subst other
    have inside := (List.getElem?_eq_some_iff.mp found).1
    have before : w.storeOf p = b := by simp [storeOf, found]
    have after : w'.storeOf p = (b.perform w.trueTime request).2 := by simp [storeOf, stores, inside]
    rw [before, after]
    cases result : (b.perform w.trueTime request).1 with
    | error e => exact .inl (by rw [Backend.perform_error result])
    | ok reply =>
      refine .inr ⟨rfl, ?_, Backend.held_perform keyed result⟩
      rw [carriedOut_of_lines journal, result, List.mem_filterMap]
      refine ⟨⟨w.now, none, .effect caller request⟩, ?_, by rw [if_pos (about _)]; rfl⟩
      rw [List.mem_reverse]
      exact List.mem_map_of_mem List.mem_cons_self
  · exact .inl (by simp [storeOf, stores, List.getElem?_set_ne (Ne.symm other)])

theorem held_use (keyed : ∀ b ∈ w.stores, b.Keyed) (store : Nat) (request : Request) (p : Participant) :
    ((w.use store request).storeOf p).held = (w.storeOf p).held
      ∨ p.store = store
        ∧ (.outsider, request) ∈ w.carriedOut (w.use store request) (.use store request) store
        ∧ ((w.use store request).storeOf p).held = request.effect (w.storeOf p).held := by
  cases found : w.stores[store]? with
  | none =>
    have same : w.use store request = w := by simp only [use, found]
    exact .inl (by rw [same])
  | some b =>
    apply held_of_noted found (keyed b (List.mem_of_getElem? found)) _ _ (fun _ => rfl) p
    · simp only [use, found]
      rfl
    · simp only [use, found]
      rfl

theorem Landed.held_cases {place : Nat} {stray : Stray} (landed : w.Landed place stray q b w')
    (keyed : b.Keyed) (p : Participant) :
    (w'.storeOf p).held = (w.storeOf p).held
      ∨ p.store = q.store
        ∧ (.adrift stray.participant, stray.request) ∈ w.carriedOut w' (.land place) q.store
        ∧ (w'.storeOf p).held = stray.request.effect (w.storeOf p).held := by
  apply held_of_noted landed.found keyed _ _ (fun note => ?_) p
  · rw [landed.eq]
    rfl
  · rw [landed.eq]
    rfl
  · simp [storeOfEntry, landed.adrift, landed.present]

/-! ## Over a run -/

/-- The tally of a participant after a change, given what it was before. -/
def tallyAfter (w w' : World) (a : Action) (i n : Nat) (t : Tally) : Tally :=
  t.next (w.carriedOut w' a n) (w.newsOf w' i)

def tallyFrom (i n : Nat) (w : World) (t : Tally) : List Action → Tally
  | [] => t
  | a :: actions =>
    match w.act? a with
    | none => t
    | some next => next.tallyFrom i n (w.tallyAfter next a i n t) actions

/-- The clock of a participant never goes back in a run. -/
def NeverBack (i : Nat) (w : World) : List Action → Prop
  | [] => True
  | a :: actions => ∀ next ∈ w.act? a,
    (∀ time ∈ w.clockOf i, ∀ time' ∈ next.clockOf i, time ≤ time') ∧ next.NeverBack i actions

instance decidableNeverBack (i : Nat) :
    (w : World) → (actions : List Action) → Decidable (w.NeverBack i actions)
  | _, [] => .isTrue trivial
  | w, a :: actions =>
    have (next : World) := decidableNeverBack i next actions
    inferInstanceAs (Decidable (∀ next ∈ w.act? a,
      (∀ time ∈ w.clockOf i, ∀ time' ∈ next.clockOf i, time ≤ time') ∧ next.NeverBack i actions))

theorem NeverBack.split {before after : List Action} (forward : w.NeverBack i (before ++ after))
    (run : w.run? before = some w') : w.NeverBack i before ∧ w'.NeverBack i after := by
  induction before generalizing w with
  | nil =>
    cases run
    exact ⟨trivial, forward⟩
  | cons a before ih =>
    obtain ⟨next, act, run⟩ := Option.bind_eq_some_iff.mp run
    obtain ⟨le, rest⟩ := forward next act
    obtain ⟨first, last⟩ := ih rest run
    refine ⟨fun next' act' => ?_, last⟩
    obtain rfl := Option.some.inj (act.symm.trans act')
    exact ⟨le, first⟩

/-- What every allowed action keeps of a world and of the tally holds at the end of a run in which the
    clock of the participant never goes back. -/
theorem run?_keeps_tally {P : World → Tally → Prop} {allowed : Action → Prop}
    (step : ∀ v a v' t, P v t → allowed a → v.act? a = some v' →
      (∀ time ∈ v.clockOf i, ∀ time' ∈ v'.clockOf i, time ≤ time') → P v' (v.tallyAfter v' a i n t))
    {actions : List Action} (calm : ∀ a ∈ actions, allowed a) (forward : w.NeverBack i actions)
    (run : w.run? actions = some w') (start : P w t) : P w' (w.tallyFrom i n t actions) := by
  induction actions generalizing w t with
  | nil =>
    cases run
    exact start
  | cons a actions ih =>
    obtain ⟨next, act, run⟩ := Option.bind_eq_some_iff.mp run
    obtain ⟨le, rest⟩ := forward next act
    rw [tallyFrom, act]
    exact ih (fun b member => calm b (List.mem_cons_of_mem _ member)) rest run
      (step w a next t start (calm a List.mem_cons_self) act le)

end World

end Leasehold
