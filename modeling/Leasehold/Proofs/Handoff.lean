import Leasehold.Proofs.Expirations
import Leasehold.Proofs.Ownership
import Leasehold.Proofs.Upkeep

/-! # A wanted lease does not stay free

Every cycle of a manager collects what has expired and claims what it wants, and on a store that answers
at once the next cycle begins within half a lease. So a name that somebody waits for is free for less
than that, whoever has freed it and however many wait, and no row outlives its expiration by more.
-/

namespace Leasehold

theorem Request.effect_cases {r : Request} {held : Holdings} {name : String} {h : Holding}
    (there : r.effect held name = some h) :
    held name = some h ∨ r.expiration? = some h.expiration := by
  cases r with
  | refreshOwned owner expiration =>
    obtain ⟨old, found, eq⟩ := Option.map_eq_some_iff.mp there
    split at eq
    · exact .inr (eq ▸ rfl)
    · exact .inl (eq ▸ found)
  | claimAbsent names owner expiration =>
    rcases Option.or_eq_some_iff.mp there with old | ⟨_, new⟩
    · exact .inl old
    · split at new
      · exact .inr (Option.some.inj new ▸ rfl)
      · cases new
  | dropSchema => cases there
  | deleteExpired now => exact .inl (Option.filter_eq_some_iff.mp there).1
  | deleteOwned n owner => exact .inl (Option.filter_eq_some_iff.mp there).1
  | referenceTime | ensureSchema | selectOwned | listAll => exact .inl there

theorem Worker.Sound.writes {k : Worker} {s : Surroundings} (sound : k.Sound s) {call : Call}
    (called : k.call? = some call) {e : Int} (writes : call.request.expiration? = some e) :
    ∃ c, k.activity = .cycling c ∧ e = c.expiration := by
  cases activity : k.activity with
  | releasing r =>
    obtain rfl : r.call = call := by simpa [call?, activity] using called
    rw [(sound.releasing r activity).1] at writes
    cases writes
  | cycling c =>
    obtain rfl : c.call = call := by simpa [call?, activity] using called
    obtain ⟨start, _, _, asks⟩ := (sound.cycling c activity).begun
    exact ⟨c, rfl, asks.writes writes⟩
  | waiting | draining | parting => simp [call?, activity] at called

namespace World

variable {start v w w' : World} {actions : List Action} {n : Nat} {p : Participant} {name : String}
  {t : Nat}

/-! ## Rows in the course of a run -/

/-- A store has a row for a name. -/
def HasRow (w : World) (n : Nat) (name : String) : Prop :=
  ∃ b, w.stores[n]? = some b ∧ ∃ row ∈ b.rows, row.name = name

/-- At time `t` of a run, a store had a row for a name. -/
def Seen (start : World) (actions : List Action) (n : Nat) (name : String) (t : Nat) : Prop :=
  ∃ first v, first <+: actions ∧ start.run? first = some v ∧ v.now = t ∧ v.HasRow n name

/-- At time `t` of a run, the row of a name was deleted, and since then the name has had none. -/
def FreedAt (start : World) (actions : List Action) (n : Nat) (name : String) (t : Nat) : Prop :=
  ∃ first a last v v', actions = first ++ a :: last ∧ start.run? first = some v
    ∧ v.act? a = some v' ∧ v.now = t ∧ v.HasRow n name
    ∧ ∀ more u, more <+: last → v'.run? more = some u → ¬ u.HasRow n name

theorem hasRow_iff (keyed : (w.storeOf p).Keyed) (placed : p.store < w.stores.length) :
    w.HasRow p.store name ↔ ((w.storeOf p).held name).isSome = true := by
  have found : w.stores[p.store]? = some (w.storeOf p) := by simp [storeOf, placed]
  constructor
  · rintro ⟨b, there, row, inside, rfl⟩
    obtain rfl := Option.some.inj (found.symm.trans there)
    rw [Backend.mem_rows_iff keyed] at inside
    simp [inside]
  · intro some
    obtain ⟨h, held⟩ := Option.isSome_iff_exists.mp some
    exact ⟨_, found, ⟨name, h.owner, h.expiration⟩, (Backend.mem_rows_iff keyed _).mpr held, rfl⟩

theorem Seen.later (seen : start.Seen actions n name t) (a : Action) :
    start.Seen (actions ++ [a]) n name t := by
  obtain ⟨first, v, before, run, now, row⟩ := seen
  exact ⟨first, v, before.trans (List.prefix_append _ _), run, now, row⟩

theorem seen_now (run : start.run? actions = some w) (row : w.HasRow n name) :
    start.Seen actions n name w.now :=
  ⟨actions, w, List.prefix_refl _, run, rfl, row⟩

theorem run?_concat {a : Action} (run : start.run? (actions ++ [a]) = some w) :
    ∃ v, start.run? actions = some v ∧ v.act? a = some w := by
  rw [run?_append] at run
  obtain ⟨v, before, last⟩ := Option.bind_eq_some_iff.mp run
  obtain ⟨w', act, rest⟩ := Option.bind_eq_some_iff.mp last
  cases rest
  exact ⟨v, before, act⟩

/-- A name that had a row has one, or lost it since then. -/
theorem Seen.row_or_freed (seen : start.Seen actions n name t) (run : start.run? actions = some w) :
    w.HasRow n name ∨ ∃ t' ≥ t, start.FreedAt actions n name t' := by
  induction actions using List.reverseRecOn generalizing w with
  | nil =>
    obtain ⟨first, v, before, run', _, row⟩ := seen
    obtain rfl := List.prefix_nil.mp before
    cases run
    cases run'
    exact .inl row
  | append_singleton actions a ih =>
    by_cases row : w.HasRow n name
    · exact .inl row
    · right
      obtain ⟨v, run', act⟩ := run?_concat run
      obtain ⟨first, u, before, ran, now, there⟩ := seen
      rcases List.prefix_concat_iff.mp before with rfl | before
      · cases ran.symm.trans run
        exact absurd there row
      · rcases ih ⟨first, u, before, ran, now, there⟩ run' with held | ⟨t', le, freed⟩
        · refine ⟨v.now, ?_, actions, a, [], v, w, rfl, run', act, rfl, held, ?_⟩
          · obtain ⟨rest, rfl⟩ := before
            rw [run?_append, ran] at run'
            exact now ▸ now_le_of_run run'
          · intro more u' none run'
            obtain rfl := List.prefix_nil.mp none
            cases run'
            exact row
        · obtain ⟨first', b, last, x, x', rfl, ran', acted, now', had, since⟩ := freed
          refine ⟨t', le, first', b, last ++ [a], x, x', by simp, ran', acted, now', had, ?_⟩
          intro more u' inside reached
          rcases List.prefix_concat_iff.mp inside with rfl | inside
          · have all : start.run? (first' ++ b :: (last ++ [a])) = some u' := by
              rw [run?_append, ran', Option.bind_some]
              change (x.act? b).bind _ = _
              rw [acted]
              exact reached
            have same : (first' ++ b :: last) ++ [a] = first' ++ b :: (last ++ [a]) := by simp
            rw [same, all] at run
            cases run
            exact row
          · exact since more u' inside reached

end World

namespace Manager

variable {m m' : Manager} {s : Surroundings} {store b : Backend} {notes : List Note}

theorem UpToDate.mono {n : Nat} {done done' : Nat → Prop} (h : m.UpToDate s n done)
    (kept : ∀ t, done t → done' t) : m.UpToDate s n done' := by
  rcases h with expects | ⟨t, before, since⟩
  · exact .inl expects
  · exact .inr ⟨t, kept t before, since⟩

theorem GoesOn.collected (goesOn : GoesOn s store 0 m m' b) (asks : m.Asks s) (keyed : store.Keyed)
    {name : String} {h : Holding} (held : b.held name = some h) : s.clock ≤ h.expiration := by
  obtain ⟨k, c, reply, present, cycling, first, answered, _, rfl⟩ := goesOn
  have collecting : c.stage = .collecting := by
    cases stage : c.stage with
    | collecting => rfl
    | _ => simp [stage, Stage.index] at first
  obtain ⟨performed, store_eq, _⟩ := Call.finish_ok answered
  rw [store_eq, Backend.held_perform keyed performed, (asks k present).2 c cycling collecting] at held
  simpa using (Option.filter_eq_some_iff.mp held).2

theorem GoesOn.claimed (goesOn : GoesOn s store 2 m m' b) (asks : m.Asks s) (keyed : store.Keyed)
    {k : Worker} (present : m.worker = some k) {name : String} {slot : Slot}
    (found : k.slots.find? name = some slot) (free : slot.acquired = false) :
    m'.Expects 2 ∨ (b.held name).isSome = true := by
  obtain ⟨k', c, reply, present', cycling, early, answered, worker, rfl⟩ := goesOn
  cases present.symm.trans present'
  rcases Worker.claims_of_answer (asks k present).1 keyed cycling early answered found free with
    due | row
  · exact .inl (.inr (.inl ⟨_, worker, due⟩))
  · exact .inr row

end Manager

namespace Fleet

variable {f : Fleet} {w w' : World} {p q : Participant} {a : World.Action}
  {seen seen' : String → Nat → Prop}

/-- At time `t`, no row was left that had expired on the clock of a member, and none has come since. -/
def Swept (f : Fleet) (w : World) (p : Participant) (t : Nat) : Prop :=
  t ≤ w.now ∧ ∀ name h, (w.storeOf p).held name = some h → f.epoch + t + p.clock.offset ≤ h.expiration

/-- Every running member has collected what has expired, and has seen a row of every name that it waits
    for, less than a pause before its next cycle. -/
structure Tended (f : Fleet) (seen : String → Nat → Prop) (w : World) : Prop where
  calm : f.Calm w
  asks : ∀ p ∈ w.participants, p.manager.Asks (w.surroundings p)
  swept : ∀ p ∈ w.participants, p.manager.lifecycle = .running →
    p.manager.UpToDate (w.surroundings p) 0 (f.Swept w p)
  wanted : ∀ p ∈ w.participants, p.manager.lifecycle = .running → ∀ k name slot,
    p.manager.worker = some k → k.slots.find? name = some slot → slot.acquired = false →
      p.manager.UpToDate (w.surroundings p) 2 (seen name)

theorem tended_founded (f : Fleet) : f.Tended seen f.founded := by
  have early {p : Participant} (inside : p ∈ f.founded.participants) :
      p.manager.lifecycle = .idle ∧ p.manager.worker = none := by
    obtain ⟨member, _, rfl⟩ := f.founded_joined inside
    exact ⟨rfl, rfl⟩
  refine ⟨f.calm_founded, fun p inside k present => ?_, fun p inside running => ?_,
    fun p inside running => ?_⟩
  · cases (early inside).2.symm.trans present
  · cases (early inside).1.symm.trans running
  · cases (early inside).1.symm.trans running

/-- What another member writes ends one of its leases from now, and that is later than anything that has
    expired on this clock. -/
theorem Swept.moved (swept : f.Swept w q t) (calm : f.Calm w) (lasts : f.Lasts w.now) {i : Nat}
    {m : Manager} {b : Backend} {notes : List Note} (moved : w.Moved i p m b notes w')
    (enrolled' : f.Enrolled q) : f.Swept w' q t := by
  have member := List.mem_of_getElem? moved.present
  have enrolled := calm.enrolled p member
  have shared : q.store = p.store := enrolled'.store.trans enrolled.store.symm
  obtain ⟨before, rows⟩ := swept
  rw [w.storeOf_congr shared] at rows
  refine ⟨moved.now ▸ before, fun name h held => ?_⟩
  rw [moved.storeOf_same (calm.guarded.placed p member) shared] at held
  rcases moved.move.write_cases (calm.guarded.modest p member) (calm.guarded.keyed_storeOf member) with
    same | ⟨k, call, present, called, done, _⟩
  · exact rows name h (same ▸ held)
  · rw [done] at held
    rcases Request.effect_cases held with old | writes
    · exact rows name h old
    · obtain ⟨c, cycling, eq⟩ := (calm.guarded.sound p member k present).writes called writes
      have written := (calm.undisturbed lasts p member).paced.cycling k c present cycling
      rw [enrolled.reading calm.epoch lasts, (enrolled.fits calm.epoch lasts).1] at written
      have apart := enrolled.apart enrolled'
      omega

theorem Tended.moved (h : f.Tended seen w) (reachable : w.Reachable) (lasts : f.Lasts w.now) {i : Nat}
    {m : Manager} {b : Backend} {notes : List Note} (moved : w.Moved i p m b notes w')
    (kept : ∀ name t, seen name t → seen' name t)
    (sees : ∀ name, w'.HasRow 0 name → seen' name w'.now) : f.Tended seen' w' := by
  have calm := h.calm
  have member := List.mem_of_getElem? moved.present
  have enrolled := calm.enrolled p member
  have placed := calm.guarded.placed p member
  have keyed := calm.guarded.keyed_storeOf member
  have calm' := calm.moved moved
  have move := moved.move
  have retentive := calm.retentive reachable lasts member
  have served := retentive.served
  have asks := h.asks p member
  obtain ⟨owner, settings⟩ := move.frame
  have member' : { p with manager := m } ∈ w'.participants := by
    rw [moved.participants]
    exact List.mem_set (List.getElem?_eq_some_iff.mp moved.present).1 _
  have surroundings : w'.surroundings { p with manager := m } = w.surroundings p := by
    rw [moved.surroundings]
    simp [World.surroundings, owner, settings]
  have mine : w'.storeOf { p with manager := m } = b := moved.storeOf_same placed rfl
  have soon (sc : Scheduler) (wake : Nat) (there : m.scheduler = some sc)
      (sleeps : sc.pacing = .sleeping wake) (running : m.lifecycle = .running) :
      wake ≤ (w.surroundings p).now + Manager.pause (w.surroundings p) := by
    have undisturbed := calm'.undisturbed (moved.now ▸ lasts) _ member'
    obtain ⟨k, present⟩ := Option.isSome_iff_exists.mp (undisturbed.staged.running running).1
    rw [surroundings] at undisturbed
    exact (undisturbed.paced.sleeping k sc wake present there sleeps).1
  refine ⟨calm', fun q inside => ?_, fun q inside running => ?_,
    fun q inside running k name slot present found free => ?_⟩
  · rcases moved.mem_cases inside with rfl | ⟨j, _, old⟩
    · rw [surroundings]
      exact asks.move move
    · rw [moved.surroundings]
      exact h.asks q (List.mem_of_getElem? old)
  · rcases moved.mem_cases inside with rfl | ⟨j, _, old⟩
    · rw [surroundings]
      refine Manager.UpToDate.move (h.swept p member) served rfl move running
        (fun sc wake there sleeps => soon sc wake there sleeps running) (fun t swept => ?_)
        fun goesOn => .inr ⟨le_of_eq moved.now.symm, fun name h held => ?_⟩
      · exact swept.moved calm lasts moved enrolled
      · rw [mine] at held
        have fresh := goesOn.collected asks keyed held
        rw [enrolled.reading calm.epoch lasts] at fresh
        exact fresh
    · have inside := List.mem_of_getElem? old
      rw [moved.surroundings]
      exact (h.swept q inside running).mono fun t swept =>
        swept.moved calm lasts moved (calm.enrolled q inside)
  · rcases moved.mem_cases inside with rfl | ⟨j, _, old⟩
    · rw [surroundings]
      rcases move.unacquired served (reachable.kicks member) keyed retentive.covered present found free
        with asked | ⟨k₀, slot₀, present₀, found₀, free₀⟩
      · exact .inl (.inl asked)
      · refine Manager.UpToDate.move
          (fun running => h.wanted p member running k₀ name slot₀ present₀ found₀ free₀) served rfl move
          running (fun sc wake there sleeps => soon sc wake there sleeps running) (kept name)
          fun goesOn => ?_
        refine (goesOn.claimed asks keyed present₀ found₀ free₀).imp_right fun row => ?_
        have there : w'.HasRow 0 name := by
          have uses : ({ p with manager := m } : Participant).store = 0 := enrolled.store
          rw [← uses, World.hasRow_iff (calm'.guarded.keyed_storeOf member')
            (calm'.guarded.placed _ member'), mine]
          exact row
        have saw := sees name there
        rw [moved.now] at saw
        exact saw
    · rw [moved.surroundings]
      exact (h.wanted q (List.mem_of_getElem? old) running k name slot present found free).mono
        (kept name)

theorem Tended.tick (h : f.Tended seen w) (reachable : w.Reachable) (lasts : f.Lasts w.now)
    (quiet : w.isQuiet = true) (calm' : f.Calm (w.elapse 1))
    (kept : ∀ name t, seen name t → seen' name t) : f.Tended seen' (w.elapse 1) := by
  have rests {p : Participant} (inside : p ∈ w.participants) :
      p.manager.Resting (w.surroundings p) (w.storeOf p) := by
    obtain ⟨i, there⟩ := List.mem_iff_getElem?.mp inside
    exact World.resting_of_quiet quiet there (h.calm.guarded.placed p inside)
  have served {p : Participant} (inside : p ∈ w.participants) :
      p.manager.Served (w.surroundings p) (w.storeOf p) :=
    (h.calm.retentive reachable lasts inside).served
  refine ⟨calm', fun p inside k present => ?_, fun p inside running => ?_,
    fun p inside running k name slot present found free => ?_⟩
  · obtain ⟨waiting, _⟩ := (rests inside).sleeping (served inside).staged (served inside).attended
      present ((served inside).prompt k · present)
    refine ⟨fun c cycling => ?_, fun c cycling => ?_⟩
    · cases waiting.symm.trans cycling
    · cases waiting.symm.trans cycling
  · have later (t : Nat) (swept : f.Swept w p t) : f.Swept (w.elapse 1) p t :=
      ⟨Nat.le_succ_of_le swept.1, swept.2⟩
    exact (h.swept p inside running).tick (rests inside) (served inside) running rfl later
  · exact (h.wanted p inside running k name slot present found free).tick (rests inside)
      (served inside) running rfl (kept name)

theorem Tended.change (h : f.Tended seen w) (reachable : w.Reachable) (lasts : f.Lasts w'.now)
    (calm : a.Calm) (change : w.Change a w') (kept : ∀ name t, seen name t → seen' name t)
    (sees : ∀ name, w'.HasRow 0 name → seen' name w'.now) : f.Tended seen' w' := by
  have calm' := h.calm.change calm change
  have lasts₀ := lasts.earlier change.now_le
  cases change with
  | move moved => exact h.moved reachable lasts₀ moved kept sees
  | rest same =>
    refine ⟨calm', fun p inside => ?_, fun p inside running => ?_, fun p inside running k name slot => ?_⟩
    all_goals
      rw [same.participants] at inside
      rw [same.surroundings]
    · exact h.asks p inside
    · refine (h.swept p inside running).mono ?_
      rintro t ⟨before, rows⟩
      exact ⟨same.now ▸ before, same.storeOf p ▸ rows⟩
    · intro present found free
      exact (h.wanted p inside running k name slot present found free).mono (kept name)
  | tick quiet => exact h.tick reachable lasts₀ quiet calm' kept
  | setLink | setClock | use | land => exact calm.elim

theorem tended_of_run (f : Fleet) {actions : List World.Action} {w : World}
    (calm : ∀ a ∈ actions, a.Calm) (run : f.founded.run? actions = some w) (lasts : f.Lasts w.now) :
    f.Tended (f.founded.Seen actions 0) w := by
  induction actions using List.reverseRecOn generalizing w with
  | nil =>
    cases run
    exact f.tended_founded
  | append_singleton actions a ih =>
    obtain ⟨v, before, act⟩ := World.run?_concat run
    have change := World.change_of_act? act
    have first : ∀ b ∈ actions, b.Calm := fun b member => calm b (List.mem_append_left _ member)
    refine (ih first before (lasts.earlier change.now_le)).change
      ⟨f.founded, actions, f.founded_begins, before⟩ lasts (calm a (by simp)) change ?_ ?_
    · exact fun name t seen => seen.later a
    · exact fun name row => World.seen_now run row

/-- On a store that answers at once, before time passes: a name for which a running manager has a
    handle that is not acquired has a row, or lost it less than half a lease ago; and a row that has
    expired on the clock of a running manager did so less than half a lease ago. -/
theorem wanted_names_are_taken (f : Fleet) {actions : List World.Action} {w : World}
    (calm : ∀ a ∈ actions, a.Calm) (run : f.founded.run? actions = some w) (lasts : f.Lasts w.now)
    (quiet : w.isQuiet = true) {i : Nat} {p : Participant} (there : w.participants[i]? = some p)
    (running : p.manager.lifecycle = .running) :
    (∀ h ∈ p.manager.handles, h.released = false → h.isAcquired = false →
        w.HasRow p.store h.name
          ∨ ∃ t, f.founded.FreedAt actions p.store h.name t ∧ w.now < t + (f.millis + 1) / 2)
      ∧ ∀ row ∈ (w.storeOf p).rows, row.expiration < (w.surroundings p).clock →
        (w.surroundings p).clock < row.expiration + ((f.millis + 1) / 2 : Nat) := by
  have reachable : w.Reachable := ⟨f.founded, actions, f.founded_begins, run⟩
  have tended := f.tended_of_run calm run lasts
  have inside := List.mem_of_getElem? there
  have guarded := tended.calm.guarded
  have enrolled := tended.calm.enrolled p inside
  have served := (tended.calm.retentive reachable lasts inside).served
  have rests := World.resting_of_quiet quiet there (guarded.placed p inside)
  refine ⟨fun h member held free => ?_, fun row listed _ => ?_⟩
  · obtain ⟨k, present⟩ := Option.isSome_iff_exists.mp (served.staged.running running).1
    obtain ⟨slot, found, flag⟩ := (reachable.balanced inside).slot_of_handle
      (reachable.truthful inside) present (rests.queue_nil served present) member held
    obtain ⟨t, seen, recent⟩ := (tended.wanted p inside running k h.name slot present found
      (flag.trans free)).resting rests served running
    rw [enrolled.pause] at recent
    rw [enrolled.store]
    refine (seen.row_or_freed run).imp_right ?_
    rintro ⟨t', later, freed⟩
    exact ⟨t', freed, lt_of_lt_of_le recent (Nat.add_le_add_right later _)⟩
  · obtain ⟨t, ⟨_, rows⟩, recent⟩ := (tended.swept p inside running).resting rests served running
    have lasting := rows row.name ⟨row.owner, row.expiration⟩
      ((Backend.mem_rows_iff (guarded.keyed_storeOf inside) row).mp listed)
    rw [enrolled.pause] at recent
    rw [enrolled.reading tended.calm.epoch lasts]
    change w.now < _ at recent
    change _ ≤ row.expiration at lasting
    omega

/-- One manager holds two leases, and another one waits for the first of them, with its cycles between
    those of the holder. The holder gives that lease up and stops, and three milliseconds pass, after
    which the second lease has expired for the one that waits. -/
def vacancy : List World.Action :=
  .start 0 :: World.turn 0 (.attempt 0) 4 ++ [.create 0 "x", .create 0 "y"]
    ++ World.turn 0 .scheduler 2 ++ World.turn 0 .worker 11 ++ World.turn 0 .scheduler 2
    ++ List.replicate 2 .tick
    ++ .start 1 :: World.turn 1 (.attempt 1) 4 ++ .create 1 "x" :: World.turn 1 .scheduler 2
    ++ World.turn 1 .worker 9 ++ World.turn 1 .scheduler 2
    ++ .release 0 0 :: World.turn 0 .worker 4
    ++ [.stop 0, .pick ⟨0, .worker⟩, .pick ⟨0, .scheduler⟩] ++ List.replicate 3 .tick

theorem wanted_names_are_taken_vacancy : ∃ (w : World) (p : Participant) (h : Handle) (row : Record),
    (∀ a ∈ vacancy, a.Calm) ∧ convoy.founded.run? vacancy = some w ∧ convoy.Lasts w.now
      ∧ w.isQuiet = true ∧ w.participants[1]? = some p ∧ p.manager.lifecycle = .running
      ∧ h ∈ p.manager.handles ∧ h.released = false ∧ h.isAcquired = false ∧ ¬ w.HasRow 0 h.name
      ∧ (∃ t, convoy.founded.FreedAt vacancy 0 h.name t ∧ w.now < t + 4)
      ∧ row ∈ (w.storeOf p).rows ∧ row.expiration < (w.surroundings p).clock
      ∧ (w.surroundings p).clock < row.expiration + 4 := by
  have calm : ∀ a ∈ vacancy, a.Calm := by decide
  obtain ⟨w, p, run, now, stores, quiet, there, running, handles, rows, clock⟩ :
      ∃ (w : World) (p : Participant), convoy.founded.run? vacancy = some w ∧ w.now = 5
        ∧ (w.stores[0]?).map Backend.rows = some [⟨"y", "a", 6⟩] ∧ w.isQuiet = true
        ∧ w.participants[1]? = some p ∧ p.manager.lifecycle = .running
        ∧ p.manager.handles = [⟨"x", 0, false, false⟩] ∧ (w.storeOf p).rows = [⟨"y", "a", 6⟩]
        ∧ (w.surroundings p).clock = 7 :=
    ⟨_, _, rfl, rfl, rfl, rfl, rfl, rfl, rfl, rfl, rfl⟩
  have lasts : convoy.Lasts w.now := by
    rw [now]
    exact ⟨by decide, by decide, by decide, by decide⟩
  have free : ¬ w.HasRow 0 "x" := by
    rintro ⟨b, found, row, inside, name⟩
    rw [found, Option.map_some, Option.some.injEq] at stores
    rw [stores, List.mem_singleton] at inside
    simp [inside] at name
  have waits : (⟨"x", 0, false, false⟩ : Handle) ∈ p.manager.handles := by simp [handles]
  have listed : (⟨"y", "a", 6⟩ : Record) ∈ (w.storeOf p).rows := by simp [rows]
  have expired : (6 : Int) < (w.surroundings p).clock := by simp [clock]
  have uses : p.store = 0 := ((Calm.of_run calm run).enrolled p (List.mem_of_getElem? there)).store
  obtain ⟨taken, collected⟩ := wanted_names_are_taken convoy calm run lasts quiet there running
  have recent := (taken _ waits rfl rfl).resolve_left (uses ▸ free)
  exact ⟨w, p, _, _, calm, run, lasts, quiet, there, running, waits, rfl, rfl, free, uses ▸ recent,
    listed, expired, collected _ listed expired⟩

end Fleet

end Leasehold
