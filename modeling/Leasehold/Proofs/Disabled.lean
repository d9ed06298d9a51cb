import Leasehold.Proofs.FirstStart
import Leasehold.Proofs.Ownership
import Leasehold.Proofs.Seclusion
import Leasehold.World.Snapshot

/-! # Leases that are disabled

A manager whose leases are disabled grants every lease through a table of its own and leaves the store
alone that it was given. Nothing can keep its first start from succeeding, and since nobody shares its
table, nothing can keep a lease from being granted, or take it away before it is released.
-/

namespace Leasehold

/-! ## Losses -/

/-- Every loss that is told of is that of a handle whose release has just been applied. -/
def Excused (notes : List Note) : Prop := ∀ first last name id,
  notes = first ++ .event name id false :: last → first.getLast? = some (.applied (.release name id))

theorem excused_append {past notes : List Note} (excused : Excused past)
    (lossless : Worker.Lossless notes) : Excused (past ++ notes) := by
  intro first last name id eq
  have told : .event name id false ∈ notes → ∃ name' id',
      notes = [.applied (.release name' id'), .event name' id' false] := by
    intro member
    refine lossless.resolve_left fun gains => ?_
    have event : (id, false) ∈ eventsIn notes := List.mem_filterMap.mpr ⟨_, member, rfl⟩
    cases gains _ event
  rcases List.append_eq_append_iff.mp eq with ⟨more, rfl, rest⟩ | ⟨more, rfl, rest⟩
  · obtain ⟨name', id', same⟩ := told (by simp [rest])
    rw [rest] at same
    cases more with
    | nil => cases same
    | cons n more =>
      cases more with
      | nil =>
        cases same
        exact List.getLast?_concat
      | cons n' more => simp at same
  · cases more with
    | nil =>
      obtain rfl : notes = .event name id false :: last := rest.symm
      obtain ⟨name', id', same⟩ := told List.mem_cons_self
      cases same
    | cons n more =>
      obtain ⟨rfl, rfl⟩ := List.cons.inj rest
      exact excused first more name id rfl

/-! ## Listings -/

theorem Backend.perform_listAll {b : Backend} (ready : b.isReady = true) (now : Int) :
    b.perform now .listAll = (.ok (.records b.rows), b) := by
  cases b with
  | memory m => rfl
  | sqlite d =>
    obtain ⟨table⟩ := d
    cases table with
    | none => cases ready
    | some t => simp [perform, SqliteDatabase.perform, SqliteDatabase.onTable, Table.selectWhere, rows]

namespace Manager

variable {m : Manager} {s : Surroundings}

theorem stepListing_of_begun (none : m.listings = []) (id : Nat) (store : Backend) :
    (m.beginListing id).stepListing s store id
      = some ({ m with listings := [⟨id, some (Call.place s.link s.now .listAll)⟩] }, store,
        [.began (.listing id) .listAll]) := by
  simp [beginListing, stepListing, none]

theorem stepListing_of_asked {id asked : Nat} {store : Backend} (ready : store.isReady = true)
    (le : asked ≤ s.now) : ∃ m' called,
    ({ m with listings := [⟨id, some (Call.place .clear asked .listAll)⟩] } : Manager).stepListing s
      store id = some (m', store, called ++ [.listingEnded id (.ok store.rows)]) := by
  have prompt := (Call.prompt_place asked .listAll).later le
  obtain ⟨called, answer, _⟩ :=
    finish_of_prompt prompt (.listing id) (Backend.perform_listAll ready _)
  simp [stepListing, prompt.due, answer, Except.map, Reply.recordList]

theorem stepAttempt_of_all_fresh {store : Backend} (fresh : ∀ a ∈ m.attempts, a.stage = .fresh)
    {a : Attempt} (member : a ∈ m.attempts) : m.stepAttempt s store a.id ≠ none := by
  obtain ⟨k, found⟩ : ∃ k, (m.attempts.find? fun k => k.id = a.id) = some k :=
    Option.isSome_iff_exists.mp (List.find?_isSome.mpr ⟨a, member, by simp⟩)
  simp [stepAttempt, found, fresh k (List.mem_of_find?_eq_some found)]

theorem stepListing_of_prompt {store : Backend}
    (prompt : ∀ l ∈ m.listings, ∀ call, l.call = some call → call.Prompt s.now)
    {l : Listing} (member : l ∈ m.listings) : m.stepListing s store l.id ≠ none := by
  obtain ⟨k, found⟩ : ∃ k, (m.listings.find? fun k => k.id = l.id) = some k :=
    Option.isSome_iff_exists.mp (List.find?_isSome.mpr ⟨l, member, by simp⟩)
  cases called : k.call with
  | none => simp [stepListing, found, called]
  | some call =>
    have due := (prompt k (List.mem_of_find?_eq_some found) call called).due
    simp [stepListing, found, called, due]

end Manager

namespace World

variable {w w' : World} {i : Nat} {p : Participant} {a : Action}

/-! ## Clocks that keep to the time -/

/-- What the clock of a participant shows. -/
def shows (w : World) (i : Nat) : Int :=
  match w.participants[i]? with
  | none => 0
  | some p => p.clock.reading w.trueTime

theorem shows_eq (present : w.participants[i]? = some p) : w.shows i = (w.surroundings p).clock := by
  rw [shows, present]
  rfl

/-- The clock of a participant does not go back, and gains no more than the time that passes. -/
def KeepsTime (i : Nat) (w w' : World) : Prop :=
  w.shows i ≤ w'.shows i ∧ w'.shows i ≤ w.shows i + ((w'.now - w.now : Nat) : Int)

/-- The clock keeps to the time with every action of a run. -/
def OnTime (i : Nat) : World → List Action → Prop
  | _, [] => True
  | w, a :: actions => ∀ next ∈ w.act? a, KeepsTime i w next ∧ OnTime i next actions

theorem reading_elapse (c : ClockSetting) (w : World) :
    c.reading w.trueTime ≤ c.reading (w.elapse 1).trueTime
      ∧ c.reading (w.elapse 1).trueTime ≤ c.reading w.trueTime + 1 := by
  refine ⟨c.reading_mono (w.trueTime_elapse 1), c.reading_succ (Reading.clamp_le_succ ?_)⟩
  simp only [elapse]
  push_cast
  omega

def Action.setsClock (i : Nat) : Action → Bool
  | .setClock j _ => j = i
  | _ => false

/-- A clock keeps to the time if nobody sets it, even one that stands still or has come to the end of
    its range. -/
theorem Change.keepsTime (change : w.Change a w') (unset : a.setsClock i = false) :
    KeepsTime i w w' := by
  cases present' : w'.participants[i]? with
  | none =>
    have none : w.participants[i]? = none := by
      rw [List.getElem?_eq_none_iff] at present' ⊢
      rwa [change.length_participants] at present'
    simp [KeepsTime, shows, none, present']
  | some p' =>
    obtain ⟨p, present, _, clock⟩ := change.stays present'
    replace clock : p'.clock = p.clock := clock.resolve_right fun ⟨c, set⟩ => by
      simp [set, Action.setsClock] at unset
    have before : w.shows i = p.clock.reading w.trueTime := shows_eq present
    have after : w'.shows i = p.clock.reading w'.trueTime := clock ▸ shows_eq present'
    rw [KeepsTime, before, after]
    rcases change.time_cases with ⟨now, time⟩ | ⟨_, rfl⟩
    · rw [now, time]
      omega
    · have passes := reading_elapse p.clock w
      simp only [elapse] at passes ⊢
      omega

theorem onTime_of_unset {actions : List Action}
    (unset : ∀ a ∈ actions, a.setsClock i = false) : OnTime i w actions := by
  induction actions generalizing w with
  | nil => trivial
  | cons a actions ih =>
    intro next act
    refine ⟨(change_of_act? act).keepsTime (unset a List.mem_cons_self), ih fun b member => ?_⟩
    exact unset b (List.mem_cons_of_mem a member)

/-! ## Steps and the other stores -/

theorem stepTask?_eq {t : Task} (present : w.participants[t.participant]? = some p) :
    w.stepTask? t = (w.stores[p.store]?).bind fun store =>
      (p.manager.stepTask (w.surroundings p) store t.kind).map fun r =>
        (((w.setManager t.participant r.1).setStore p.store r.2.1).note (some t.participant) r.2.2,
          r.2.2) := by
  unfold stepTask?
  rw [present, Option.bind_eq_bind, Option.bind_some]
  cases w.stores[p.store]? with
  | none => rfl
  | some store => exact Option.map_eq_bind.symm

theorem stepTask?_setStore {t : Task} {n : Nat} (present : w.participants[t.participant]? = some p)
    (other : p.store ≠ n) (b : Backend) : (w.setStore n b).stepTask? t
      = (w.stepTask? t).map fun r => (r.1.setStore n b, r.2) := by
  have present' : (w.setStore n b).participants[t.participant]? = some p := present
  have found : (w.setStore n b).stores[p.store]? = w.stores[p.store]? :=
    List.getElem?_set_ne (Ne.symm other)
  have same : (w.setStore n b).surroundings p = w.surroundings p := rfl
  rw [stepTask?_eq present', stepTask?_eq present, found, same]
  cases w.stores[p.store]? with
  | none => rfl
  | some store =>
    simp only [Option.bind_some, Option.map_map]
    congr 1
    funext r
    simp [setStore, setManager, note, List.set_comm _ _ (Ne.symm other)]

/-! ## Snapshots -/

theorem rush_of_step {t : Task} {store b : Backend} {m : Manager} {notes : List Note}
    (present : w.participants[t.participant]? = some p) (found : w.stores[p.store]? = some store)
    (step : p.manager.stepTask (w.surroundings p) store t.kind = some (m, b, notes)) (fuel : Nat) :
    ∃ next : World, w.rush t (fuel + 1) = next.rush t fuel
      ∧ next.participants[t.participant]? = some { p with manager := m }
      ∧ next.stores[p.store]? = some b ∧ next.now = w.now
      ∧ next.journal = w.lines t.participant notes ++ w.journal := by
  have stepped := stepTask?_eq present
  rw [found, Option.bind_some, step, Option.map_some] at stepped
  refine ⟨((w.setManager t.participant m).setStore p.store b).note (some t.participant) notes,
    by simp only [rush, stepped], ?_, ?_, rfl, rfl⟩
  · simp [note, setStore, setManager, present]
  · exact List.getElem?_set_self (List.getElem?_eq_some_iff.mp found).1

/-- Where no listing is under way, and the store can answer at once, a snapshot shows the table. -/
theorem snapshot_eq {store : Backend} (present : w.participants[i]? = some p)
    (found : w.stores[p.store]? = some store) (ready : store.isReady = true)
    (clear : (w.surroundings p).link = .clear) (none : p.manager.listings = []) :
    (w.snapshot i).1 = some (.ok store.rows) := by
  have begun : (w.list i).2.participants[i]?
      = some { p with manager := p.manager.beginListing w.nextRequest } := by
    simp [World.list, changeManager, present, note, setManager]
  have there : (w.list i).2.stores[p.store]? = some store := by
    simpa only [World.list, changeManager, present, note, setManager] using found
  have same (q : Participant) : (w.list i).2.surroundings q = w.surroundings q := by
    simp only [World.list, changeManager, present, note, setManager]
    rfl
  -- the listing is asked for, and answered
  have asks := Manager.stepListing_of_begun (s := w.surroundings p) none w.nextRequest store
  rw [clear, ← same p] at asks
  obtain ⟨w₂, rush₁, present₂, there₂, now₂, _⟩ :=
    rush_of_step (t := ⟨i, .listing w.nextRequest⟩) begun there asks 1
  have le : ((w.list i).2.surroundings p).now ≤ w₂.now := Nat.le_of_eq now₂.symm
  obtain ⟨m₃, called, answers⟩ := Manager.stepListing_of_asked (s := w₂.surroundings _) ready le
  obtain ⟨w₃, rush₂, _, _, _, told⟩ :=
    rush_of_step (t := ⟨i, .listing w.nextRequest⟩) present₂ there₂ answers 0
  have shown : listingResult? w.nextRequest w₃.journal = some (.ok store.rows) := by
    simp [listingResult?, told, lines]
  have eq : (w.list i).2.rush ⟨i, .listing w.nextRequest⟩ 2 = w₃ := rush₁.trans rush₂
  have id_eq : (w.list i).1 = w.nextRequest := rfl
  simp only [snapshot, id_eq, eq, shown]

theorem attempts_of_quiet (quiet : w.isQuiet = true) (present : w.participants[i]? = some p)
    (placed : p.store < w.stores.length) (fresh : ∀ a ∈ p.manager.attempts, a.stage = .fresh) :
    p.manager.attempts = [] := by
  by_contra some
  obtain ⟨a, member⟩ := List.exists_mem_of_ne_nil _ some
  have task : TaskKind.attempt a.id ∈ p.manager.tasks := by
    simp only [Manager.tasks, List.mem_append]
    exact .inl (.inl (.inl (List.mem_map_of_mem member)))
  exact Manager.stepAttempt_of_all_fresh fresh member (rests_of_quiet quiet present placed task).2

theorem listings_of_quiet (quiet : w.isQuiet = true) (present : w.participants[i]? = some p)
    (placed : p.store < w.stores.length)
    (prompt : ∀ l ∈ p.manager.listings, ∀ call, l.call = some call → call.Prompt w.now) :
    p.manager.listings = [] := by
  by_contra some
  obtain ⟨l, member⟩ := List.exists_mem_of_ne_nil _ some
  have task : TaskKind.listing l.id ∈ p.manager.tasks := by
    simp only [Manager.tasks, List.mem_append]
    exact .inr (List.mem_map_of_mem member)
  exact Manager.stepListing_of_prompt (s := w.surroundings p) prompt member
    (rests_of_quiet quiet present placed task).2

end World

/-! ## Settings that keep a manager to itself -/

/-- Leases are disabled, and their duration is accepted and fits into a clock reading. -/
structure Settings.Unshared (settings : Settings) : Prop where
  disabled : settings.enabled = false
  valid : settings.validate = .ok ()
  fits : (settings.leaseDuration.wholeMillis : Int) ≤ Reading.max

theorem Settings.Unshared.pause_le {settings : Settings} (unshared : settings.Unshared) :
    (settings.interval.ceilMillis : Int) ≤ settings.leaseMillis := by
  obtain ⟨_, valid, fits⟩ := unshared
  have least : 4000000 ≤ settings.leaseDuration.nanos := (Settings.validate_iff settings).mp valid
  rw [Settings.InRange.leaseMillis fits]
  simp only [Settings.interval, Duration.part, Duration.ceilMillis, Duration.wholeMillis,
    Duration.nanosPerMilli]
  omega

namespace World

variable {w w' : World} {i n : Nat} {p p' : Participant} {m : Manager} {b : Backend}
  {notes : List Note} {a : Action} {owner : String} {settings : Settings}

/-! ## A manager by itself -/

theorem apart_of_unshared (same : p.manager.settings = settings) (unshared : settings.Unshared) :
    (w.surroundings p).Apart where
  link := by simp [surroundings, same, unshared.disabled]
  clock := Reading.clamp_inRange _
  lease := by
    have pause : Manager.pause (w.surroundings p) = settings.interval.ceilMillis := by
      rw [← same]
      rfl
    rw [pause]
    exact same ▸ unshared.pause_le

/-- A manager has its table, number `n`, for itself. -/
structure Enclosed (w : World) (i n : Nat) (owner : String) (settings : Settings) (p : Participant) :
    Prop where
  present : w.participants[i]? = some p
  store : p.store = n
  placed : n < w.stores.length
  alone : ∀ j q, w.participants[j]? = some q → q.store = n → j = i
  owner : p.manager.owner = owner
  settings : p.manager.settings = settings
  secluded : p.manager.Secluded (w.surroundings p) (w.storeOf p)
  /-- A table in memory: what has been given up is not carried out. -/
  bound : (w.storeOf p).outlives = false
  excused : Excused (w.notesOf i)

/-- Actions that do not reach into a table. -/
def Action.Spares (n : Nat) : Action → Prop
  | .use m _ => m ≠ n
  | _ => True

instance (n : Nat) : DecidablePred (Action.Spares n)
  | .use m _ => inferInstanceAs (Decidable (m ≠ n))
  | .start _ | .list _ | .create _ _ | .release _ _ | .stop _ | .abandon _ | .setLink _ _
  | .setClock _ _ | .land _ | .pick _ | .proceed _ | .tick => .isTrue trivial

theorem Enclosed.aside (h : w.Enclosed i n owner settings p) {a : Action} (change : w.Change a w')
    (present' : w'.participants[i]? = some p') (manager : p'.manager = p.manager)
    (surroundings : w'.surroundings p' = w.surroundings p) (table : w'.storeOf p' = w.storeOf p)
    (past : w'.notesOf i = w.notesOf i) : w'.Enclosed i n owner settings p' where
  present := present'
  store := by
    obtain ⟨q, present, store, _⟩ := change.stays present'
    obtain rfl := Option.some.inj (h.present.symm.trans present)
    exact store.trans h.store
  placed := change.length_stores ▸ h.placed
  alone j q' there mine := by
    obtain ⟨q, before, store, _⟩ := change.stays there
    exact h.alone j q before (store.symm.trans mine)
  owner := manager ▸ h.owner
  settings := manager ▸ h.settings
  secluded := by
    rw [manager, surroundings, table]
    exact h.secluded
  bound := table ▸ h.bound
  excused := past ▸ h.excused

section Steps

variable (h : w.Enclosed i n owner settings p) (unshared : settings.Unshared)

include h unshared

theorem Enclosed.own (reachable : w.Reachable) (moved : w.Moved i p m b notes w') :
    w'.Enclosed i n owner settings { p with manager := m } := by
  have placed : p.store < w.stores.length := h.store ▸ h.placed
  have member := List.mem_of_getElem? h.present
  have apart := apart_of_unshared (w := w) h.settings unshared
  obtain ⟨sameOwner, sameSettings⟩ := moved.move.frame
  have same : w'.surroundings { p with manager := m } = w.surroundings p := by
    rw [moved.surroundings]
    simp [surroundings, sameOwner, sameSettings]
  have change : w.Change .tick w' := .move moved
  have mine : w'.storeOf { p with manager := m } = b := moved.storeOf_same placed rfl
  refine ⟨?_, h.store, change.length_stores ▸ h.placed, fun j q' there mine => ?_,
    sameOwner.trans h.owner, sameSettings.trans h.settings, ?_, ?_, ?_⟩
  · rw [moved.participants, List.getElem?_set_self (List.getElem?_eq_some_iff.mp h.present).1]
  · obtain ⟨q, before, store, _⟩ := change.stays there
    exact h.alone j q before (store.symm.trans mine)
  · rw [same, mine]
    exact h.secluded.move moved.move apart rfl
  · rw [mine, moved.move.outlives]
    exact h.bound
  · rw [notesOf_of_lines moved.journal, if_pos rfl]
    exact excused_append h.excused (h.secluded.lossless apart (reachable.balanced member)
      (reachable.truthful member) moved.move)

theorem Enclosed.change (reachable : w.Reachable) (change : w.Change a w') (spares : a.Spares n)
    (keeps : KeepsTime i w w') : ∃ p', w'.Enclosed i n owner settings p' := by
  have placed : p.store < w.stores.length := h.store ▸ h.placed
  obtain ⟨p', present'⟩ : ∃ p', w'.participants[i]? = some p' := by
    have inside := (List.getElem?_eq_some_iff.mp h.present).1
    rw [← change.length_participants] at inside
    exact ⟨_, List.getElem?_eq_getElem inside⟩
  have clock : w'.now = w.now → (w'.surroundings p').clock = (w.surroundings p).clock := by
    intro now
    have kept := keeps
    rw [KeepsTime, shows_eq h.present, shows_eq present', now] at kept
    omega
  cases change with
  | @move _ j q m b notes _ moved =>
    by_cases own : j = i
    · subst own
      obtain rfl := Option.some.inj (h.present.symm.trans moved.present)
      exact ⟨_, h.own unshared reachable moved⟩
    · have other : q.store ≠ p.store := fun shared =>
        own (h.alone j q moved.present (shared.trans h.store))
      have there : w'.participants[i]? = some p := by
        rw [moved.participants, List.getElem?_set_ne own, h.present]
      refine ⟨p, h.aside (.move (a := .tick) moved) there rfl (moved.surroundings p)
        (moved.storeOf_other (Ne.symm other)) ?_⟩
      rw [notesOf_of_lines moved.journal, if_neg own, List.append_nil]
  | rest same =>
    have there : w'.participants[i]? = some p := same.participants ▸ h.present
    exact ⟨p, h.aside (.rest (a := .tick) same) there rfl (same.surroundings p) (same.storeOf p)
      (notesOf_of_journal same.journal i)⟩
  | tick quiet =>
    have kept := keeps
    rw [KeepsTime, shows_eq h.present, shows_eq (w := w.elapse 1) h.present] at kept
    have passes : (((w.elapse 1).now - w.now : Nat) : Int) = 1 := by
      simp [elapse]
    rw [passes] at kept
    have rests := resting_of_quiet quiet h.present placed
    exact ⟨p, h.present, h.store, h.placed, h.alone, h.owner, h.settings,
      h.secluded.tick rests rfl kept.1 kept.2 rfl rfl, h.bound, h.excused⟩
  | setLink j link =>
    obtain ⟨q, link', before, rfl⟩ := setLink_participant present'
    obtain rfl := Option.some.inj (h.present.symm.trans before)
    refine ⟨_, h.aside (.setLink j link) present' rfl ?_ rfl rfl⟩
    have disabled : p.manager.settings.enabled = false := h.settings ▸ unshared.disabled
    simp only [surroundings, disabled]
    rfl
  | setClock j c =>
    obtain ⟨q, c', before, rfl, _⟩ := setClock_participant present'
    obtain rfl := Option.some.inj (h.present.symm.trans before)
    refine ⟨_, h.aside (.setClock j c) present' rfl ?_ rfl rfl⟩
    exact congrArg (fun c => { w.surroundings p with clock := c }) (clock rfl)
  | use m request =>
    have other : p.store ≠ m := fun shared => spares (shared.symm.trans h.store)
    have there : (w.use m request).participants[i]? = some p :=
      w.participants_use m request ▸ h.present
    refine ⟨p, h.aside (.use m request) there rfl ?_ (w.storeOf_use other request)
      (w.notesOf_use m request i)⟩
    unfold World.use
    split <;> rfl
  | @land place stray q b _ landed =>
    have other : p.store ≠ q.store := by
      intro shared
      have mine : w.storeOf p = b := by simp [storeOf, shared, landed.found]
      have bound := h.bound
      rw [mine, landed.outlives] at bound
      cases bound
    have there : w'.participants[i]? = some p := landed.participants ▸ h.present
    refine ⟨p, h.aside (.land landed) there rfl ?_ (landed.storeOf_other other) (landed.notesOf_eq i)⟩
    rw [landed.eq]
    rfl

end Steps

theorem Enclosed.run (unshared : settings.Unshared) {actions : List Action}
    (h : w.Enclosed i n owner settings p) (reachable : w.Reachable) (run : w.run? actions = some w')
    (spares : ∀ a ∈ actions, a.Spares n) (onTime : OnTime i w actions) :
    ∃ p', w'.Enclosed i n owner settings p' := by
  induction actions generalizing w p with
  | nil =>
    cases run
    exact ⟨p, h⟩
  | cons a actions ih =>
    obtain ⟨next, act, run⟩ := Option.bind_eq_some_iff.mp run
    obtain ⟨keeps, later⟩ := onTime next act
    obtain ⟨p', h'⟩ :=
      h.change unshared reachable (change_of_act? act) (spares a List.mem_cons_self) keeps
    exact ih h' (reachable.act act) run (fun b member => spares b (List.mem_cons_of_mem a member)) later

section Settled

variable (h : w.Enclosed i n owner settings p) (unshared : settings.Unshared)
  (reachable : w.Reachable) (quiet : w.isQuiet = true)

include h quiet

theorem Enclosed.resting : p.manager.Resting (w.surroundings p) (w.storeOf p) :=
  resting_of_quiet quiet h.present (h.store ▸ h.placed)

theorem Enclosed.running (granting : p.manager.Granting (w.notesOf i))
    (tried : p.manager.Tried (w.notesOf i)) (active : p.manager.lifecycle ≠ .stopped) :
    p.manager.lifecycle = .running := by
  have none := attempts_of_quiet quiet h.present (h.store ▸ h.placed) granting.fresh
  have ended := tried.resolve_left fun some => some none
  cases lifecycle : p.manager.lifecycle with
  | idle => exact absurd (granting.idle lifecycle) ended
  | starting => exact absurd lifecycle granting.prompt
  | running => rfl
  | stopped => exact absurd lifecycle active

include unshared reachable

theorem Enclosed.listed (running : p.manager.lifecycle = .running) : ∃ rows,
    (w.snapshot i).1 = some (.ok rows) ∧ (rows.map Record.name).Nodup
      ∧ ∀ name o, (∃ row ∈ rows, row.name = name ∧ row.owner = o)
        ↔ o = owner ∧ ∃ k ∈ p.manager.handles, k.name = name ∧ k.released = false := by
  have placed : p.store < w.stores.length := h.store ▸ h.placed
  have member := List.mem_of_getElem? h.present
  have apart := apart_of_unshared (w := w) h.settings unshared
  have found : w.stores[p.store]? = some (w.storeOf p) := by simp [storeOf, placed]
  have none := listings_of_quiet quiet h.present placed h.secluded.listed
  refine ⟨(w.storeOf p).rows, snapshot_eq h.present found h.secluded.table apart.link none,
    Backend.nodup_rows h.secluded.keyed, fun name o => ?_⟩
  have rows := h.secluded.rows_iff apart (h.resting quiet) running (reachable.balanced member)
    (reachable.truthful member) name o
  have mine : (w.surroundings p).owner = owner := h.owner
  rw [mine] at rows
  rw [← rows]
  constructor
  · rintro ⟨row, there, rfl, rfl⟩
    exact ⟨row.expiration, (Backend.mem_rows_iff h.secluded.keyed row).mp there⟩
  · rintro ⟨e, held⟩
    exact ⟨⟨name, o, e⟩, (Backend.mem_rows_iff h.secluded.keyed _).mpr held, rfl, rfl⟩

end Settled

/-- Whoever joins later is given another store. -/
theorem Enclosed.join (h : w.Enclosed i n owner settings p) (other : String) (settings' : Settings)
    {store : Nat} (elsewhere : store ≠ n) (clock : ClockSetting) :
    (w.join other settings' store clock).Enclosed i n owner settings p := by
  have inside := (List.getElem?_eq_some_iff.mp h.present).1
  have joined {new : Participant} {stores : List Backend} (away : new.store ≠ n)
      (before : ∀ k, k < w.stores.length → stores[k]? = w.stores[k]?) (more : n < stores.length) :
      ({ w with participants := w.participants ++ [new], stores } : World).Enclosed i n owner settings
        p := by
    have same : ({ w with participants := w.participants ++ [new], stores } : World).storeOf p
        = w.storeOf p := by
      rw [storeOf, storeOf, before p.store (h.store ▸ h.placed)]
    refine ⟨?_, h.store, more, fun j q there mine => ?_, h.owner, h.settings, ?_, same ▸ h.bound,
      h.excused⟩
    · rw [List.getElem?_append_left inside, h.present]
    · rw [List.getElem?_append] at there
      split at there
      · exact h.alone j q there mine
      · rw [List.getElem?_singleton] at there
        split at there
        · cases there
          exact absurd mine away
        · cases there
    · rw [same]
      exact h.secluded
  unfold World.join
  split
  · exact joined elsewhere (fun _ _ => rfl) h.placed
  · refine joined (Ne.symm (Nat.ne_of_lt h.placed)) (fun k lt => List.getElem?_append_left lt) ?_
    exact lt_of_lt_of_le h.placed (by simp)

/-- With leases disabled, who joins gets a table of its own. -/
theorem enclosed_join (begins : w.Begins) (placed : ∀ q ∈ w.participants, q.store < w.stores.length)
    (owner : String) (disabled : settings.enabled = false) (given : Nat) (clock : ClockSetting) :
    (w.join owner settings given clock).Enclosed w.participants.length w.stores.length owner settings
      ⟨.fresh owner settings, w.stores.length, clock, .clear⟩ := by
  have silent : (w.join owner settings given clock).notesOf w.participants.length = [] := by
    rw [notesOf, (Begins.join begins owner settings given clock).journal_nil]
    rfl
  have eq : w.join owner settings given clock = { w with
      participants := w.participants ++ [⟨.fresh owner settings, w.stores.length, clock, .clear⟩]
      stores := w.stores ++ [.freshMemory] } := by
    simp [World.join, disabled]
  rw [eq] at silent ⊢
  have table : ({ w with
      participants := w.participants ++ [⟨.fresh owner settings, w.stores.length, clock, .clear⟩]
      stores := w.stores ++ [.freshMemory] } : World).storeOf
        ⟨.fresh owner settings, w.stores.length, clock, .clear⟩ = .freshMemory := by
    simp [storeOf]
  refine ⟨by simp, rfl, by simp, fun j q there mine => ?_, rfl, rfl, ?_, ?_, ?_⟩
  · rw [List.getElem?_append] at there
    split at there
    · have less := placed q (List.mem_of_getElem? there)
      omega
    · rw [List.getElem?_singleton] at there
      split at there
      · omega
      · cases there
  · rw [table]
    exact Manager.secluded_fresh owner settings
  · rw [table]
    rfl
  · intro first last name id eq
    simp [silent] at eq

end World

/-! ## Granting without coordination -/

/-- A manager by what it is created with. -/
structure Guest where
  owner : String
  settings : Settings
  store : Nat
  clock : ClockSetting
  deriving Repr, DecidableEq

/-- A manager with leases disabled, and who else is there. -/
structure Recluse where
  /-- The world that the manager joins. -/
  before : World
  begins : before.Begins
  placed : ∀ q ∈ before.participants, q.store < before.stores.length
  owner : String
  settings : Settings
  unshared : settings.Unshared
  /-- Number of the store that the manager is given. -/
  given : Nat
  offered : given < before.stores.length
  clock : ClockSetting
  /-- Who joins afterwards. -/
  guests : List Guest
  /-- Nobody is given the manager's own table. -/
  alone : ∀ guest ∈ guests, guest.store ≠ before.stores.length

namespace Recluse

open World

variable (r : Recluse)

/-- Number of the participant. -/
def index : Nat := r.before.participants.length

/-- Number of the manager's own table. -/
def table : Nat := r.before.stores.length

/-- The manager joins, and everybody else after it. -/
def founded : World :=
  r.guests.foldl (fun w guest => w.join guest.owner guest.settings guest.store guest.clock)
    (r.before.join r.owner r.settings r.given r.clock)

theorem founded_begins : r.founded.Begins := by
  have joined (guests : List Guest) {w : World} (begins : w.Begins) :
      (guests.foldl (fun w guest =>
        w.join guest.owner guest.settings guest.store guest.clock) w).Begins := by
    induction guests generalizing w with
    | nil => exact begins
    | cons guest guests ih => exact ih (.join begins _ _ _ _)
  exact joined r.guests (.join r.begins _ _ _ _)

theorem founded_enclosed : r.founded.Enclosed r.index r.table r.owner r.settings
    ⟨.fresh r.owner r.settings, r.table, r.clock, .clear⟩ := by
  have joined (guests : List Guest) (alone : ∀ guest ∈ guests, guest.store ≠ r.table) {w : World}
      {p : Participant} (enclosed : w.Enclosed r.index r.table r.owner r.settings p) :
      (guests.foldl (fun w guest =>
        w.join guest.owner guest.settings guest.store guest.clock) w).Enclosed r.index r.table r.owner
          r.settings p := by
    induction guests generalizing w with
    | nil => exact enclosed
    | cons guest guests ih =>
      have elsewhere := alone guest List.mem_cons_self
      exact ih (fun g member => alone g (List.mem_cons_of_mem guest member))
        (enclosed.join guest.owner guest.settings elsewhere guest.clock)
  exact joined r.guests r.alone (World.enclosed_join r.begins r.placed r.owner r.unshared.disabled _ _)

/-- A manager with leases disabled grants every lease, whoever else is there and whatever its clock, as
    long as that does not go back and gains no more than the time that passes. Its steps neither read
    nor change the store that it was given. The only losses that it tells of are those of releases. Only
    its application can end it, and until then the first attempt to start it succeeds; from then on,
    whenever no time has to pass before all is at rest, every handle that has not been released is
    acquired, and a listing shows the names of these handles, each once and with the manager's owner
    id. -/
theorem disabled_leases_are_granted {actions : List Action} {w : World}
    (run : r.founded.run? actions = some w) (spares : ∀ a ∈ actions, a.Spares r.table)
    (onTime : OnTime r.index r.founded actions) :
    (∀ kind b, (w.setStore r.given b).stepTask? ⟨r.index, kind⟩
        = (w.stepTask? ⟨r.index, kind⟩).map fun step => (step.1.setStore r.given b, step.2))
      ∧ Excused (w.notesOf r.index)
      ∧ ∃ p, w.participants[r.index]? = some p
        ∧ ((∀ a ∈ actions, a.ends r.index = false) → p.manager.lifecycle ≠ .stopped)
        ∧ (p.manager.lifecycle ≠ .stopped →
          (∀ result ∈ (outcomes (w.notesOf r.index)).head?, result = .ok ())
          ∧ (w.isQuiet = true → .start r.index ∈ actions →
            (outcomes (w.notesOf r.index)).head? = some (.ok ())
              ∧ (∀ h ∈ p.manager.handles, h.released = false → h.isAcquired = true)
              ∧ ∃ rows, (w.snapshot r.index).1 = some (.ok rows) ∧ (rows.map Record.name).Nodup
                ∧ ∀ name owner, (∃ row ∈ rows, row.name = name ∧ row.owner = owner)
                  ↔ owner = r.owner
                    ∧ ∃ h ∈ p.manager.handles, h.name = name ∧ h.released = false)) := by
  have reachable : w.Reachable := ⟨r.founded, actions, r.founded_begins, run⟩
  have founded := r.founded_enclosed
  obtain ⟨p, enclosed⟩ :=
    founded.run r.unshared ⟨r.founded, [], r.founded_begins, rfl⟩ run spares onTime
  have member := List.mem_of_getElem? enclosed.present
  have elsewhere : p.store ≠ r.given := by
    rw [enclosed.store]
    exact (Nat.ne_of_lt r.offered).symm
  have grants : w.Grants r.index r.settings (False ∨ .start r.index ∈ actions) := by
    refine (r.founded_begins.grants fun q there => ?_).run r.unshared.valid r.unshared.disabled run
    obtain rfl := Option.some.inj (founded.present.symm.trans there)
    rfl
  obtain ⟨_, granting, tried⟩ := grants p enclosed.present
  refine ⟨fun kind b => stepTask?_setStore enclosed.present elsewhere b, enclosed.excused, p,
    enclosed.present, fun spared => ?_, fun active => ⟨?_, fun quiet started => ?_⟩⟩
  · refine (alive_of_run run spared (fun q there => ?_) p enclosed.present).active
    obtain rfl := Option.some.inj (founded.present.symm.trans there)
    exact ⟨rfl, nofun⟩
  · intro result first
    cases lifecycle : p.manager.lifecycle with
    | idle =>
      rw [granting.idle lifecycle] at first
      cases first
    | starting => exact absurd lifecycle granting.prompt
    | running =>
      rw [granting.running lifecycle] at first
      exact (Option.some.inj first).symm
    | stopped => exact absurd lifecycle active
  · have running := enclosed.running quiet granting (tried (.inr started)) active
    refine ⟨granting.running running, fun h inside held => ?_,
      enclosed.listed r.unshared reachable quiet running⟩
    exact enclosed.secluded.all_acquired (enclosed.resting quiet) running (reachable.balanced member)
      (reachable.truthful member) inside held

/-- The clock stands still at the end of its range. -/
def hermit : Recluse where
  before := .initial 0 [.freshSqlite]
  begins := .initial 0 [.freshSqlite]
  placed q member := by cases member
  owner := "a"
  settings := ⟨.ofMillis 8, false⟩
  unshared := ⟨rfl, rfl, by decide⟩
  given := 0
  offered := by decide
  clock := { frozen := some Reading.max }
  guests := [⟨"b", ⟨.ofMillis 8, true⟩, 0, {}⟩]
  alone := by decide

/-- Two leases are granted and refreshed after a pause, and one of them is released. -/
def seclusion : List Action :=
  [.create 0 "x", .create 0 "y", .start 0] ++ turn 0 (.attempt 0) 2 ++ turn 0 .worker 10
    ++ turn 0 .scheduler 2 ++ turn 0 .worker 6 ++ turn 0 .scheduler 2 ++ List.replicate 4 .tick
    ++ turn 0 .scheduler 3 ++ turn 0 .worker 6 ++ turn 0 .scheduler 2 ++ .release 0 0 :: turn 0 .worker 4

theorem disabled_leases_are_granted_seclusion : ∃ (w : World) (p : Participant) (rows : List Record),
    hermit.founded.run? seclusion = some w ∧ (∀ a ∈ seclusion, a.Spares hermit.table)
      ∧ OnTime hermit.index hermit.founded seclusion ∧ w.participants[0]? = some p
      ∧ p.manager.lifecycle = .running ∧ w.isQuiet = true ∧ .start hermit.index ∈ seclusion
      ∧ w.history 0 0 = [true, false] ∧ (outcomes (w.notesOf 0)).head? = some (.ok ())
      ∧ (∀ h ∈ p.manager.handles, h.released = false → h.isAcquired = true)
      ∧ (w.snapshot 0).1 = some (.ok rows) ∧ ∃ row ∈ rows, row.name = "y" ∧ row.owner = "a" := by
  have spares : ∀ a ∈ seclusion, a.Spares hermit.table := by decide
  have onTime : OnTime hermit.index hermit.founded seclusion := onTime_of_unset (by decide)
  have started : .start hermit.index ∈ seclusion := by decide
  obtain ⟨w, p, run, present, running, quiet, told, y, inside, name, held⟩ :
      ∃ (w : World) (p : Participant), hermit.founded.run? seclusion = some w
        ∧ w.participants[0]? = some p ∧ p.manager.lifecycle = .running ∧ w.isQuiet = true
        ∧ w.history 0 0 = [true, false]
        ∧ ∃ y ∈ p.manager.handles, y.name = "y" ∧ y.released = false :=
    ⟨_, _, rfl, rfl, rfl, rfl, rfl, _, .tail _ (.head _), rfl, rfl⟩
  obtain ⟨_, _, q, there, _, granted⟩ := hermit.disabled_leases_are_granted run spares onTime
  obtain rfl := Option.some.inj (present.symm.trans there)
  have active : p.manager.lifecycle ≠ .stopped := by simp [running]
  obtain ⟨first, acquired, rows, shown, _, all⟩ := (granted active).2 quiet started
  exact ⟨w, p, rows, run, spares, onTime, present, running, quiet, started, told, first, acquired,
    shown, (all "y" "a").mpr ⟨rfl, y, inside, name, held⟩⟩

end Recluse

end Leasehold
