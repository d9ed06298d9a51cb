import Leasehold.Proofs.Fleet

/-! # Leases while the store is in trouble

A lease is overdue once the local clock is past the point up to which it is confirmed, less the grace
window. While a worker waits for the store, its deadline keeps it from getting there: `Worker.Timely`.
So clocks that are no more than a grace window apart keep two managers from holding the same lease,
except while one of them is overdue, and a manager gets overdue only where no deadline watches it.
-/

namespace Leasehold

namespace Reading

theorem clamp_le_succ {x y : Int} (le : y ≤ x + 1) : clamp y ≤ clamp x + 1 := by
  unfold clamp min max
  split <;> split <;> (try split) <;> omega

theorem clamp_le_of_lt {x : Int} (above : min < clamp x) : clamp x ≤ x := by
  unfold clamp at above ⊢
  split at above
  · omega
  · rw [if_neg (by assumption)]
    split <;> omega

theorem add_sub_sub_le {point grace clock : Int} (inside : min ≤ clock)
    (left : 0 < sub (sub point grace) clock) :
    clock + sub (sub point grace) clock ≤ point - grace := by
  have rest : sub (sub point grace) clock ≤ sub point grace - clock :=
    clamp_le_of_lt (lt_trans (by decide) left)
  have whole : sub point grace ≤ point - grace := clamp_le_of_lt (by change min < sub point grace; omega)
  omega

end Reading

theorem ClockSetting.reading_succ (c : ClockSetting) {t t' : Int} (le : t' ≤ t + 1) :
    c.reading t' ≤ c.reading t + 1 := by
  unfold reading Reading.add
  cases c.frozen with
  | none =>
    refine Reading.clamp_le_succ ?_
    have := Reading.clamp_le_succ le
    simp only [Option.getD_none]
    omega
  | some still => exact Reading.clamp_le_succ (by simp)

theorem ClockSetting.min_le_reading (c : ClockSetting) (t : Int) : Reading.min ≤ c.reading t :=
  (Reading.clamp_inRange _).1

theorem Duration.ceilMillis_ofMillis (n : Nat) : (Duration.ofMillis n).ceilMillis = n := by
  simp only [Duration.ceilMillis, Duration.ofMillis, Duration.nanosPerMilli]
  omega

theorem Slots.holding_of_find? {slots : Slots} {name : String} {slot : Slot}
    (found : slots.find? name = some slot) (acquired : slot.acquired = true) :
    slots.holding = true :=
  List.any_eq_true.mpr ⟨_, Keyed.mem_of_lookup found, acquired⟩

namespace Worker

variable {w : Worker} {s s' : Surroundings} {queue : List Command} {store : Backend} {r : WorkerStep}

/-- The point up to which leases are confirmed that are held. -/
def pledge? (w : Worker) : Option Int := if w.slots.holding then w.confirmedUntil else none

/-- The deadline has come, or comes before a lease that is held gets overdue. -/
def Before (w : Worker) (s : Surroundings) (deadline : Nat) : Prop :=
  ∀ point, w.pledge? = some point →
    deadline ≤ s.now ∨ s.clock + deadline ≤ point - s.settings.graceMillis + s.now

/-- Whatever is waited for while a lease is held has a deadline that keeps it from getting overdue,
    unless the lease was acquired by a cycle that began without any. -/
structure Timely (s : Surroundings) (w : Worker) : Prop where
  releasing : ∀ r, w.activity = .releasing r → w.Before s r.deadline
  cycling : ∀ c, w.activity = .cycling c → w.Before s c.deadline
    ∨ (∃ name rest, c.stage = .purging name rest) ∧ c.limit = s.settings.leaseDuration
  unheld : ∀ c, w.activity = .cycling c → w.pledge? = none →
    (∀ name rest, c.stage ≠ .purging name rest) → c.limit = s.settings.leaseDuration

theorem timely_idle (releasing : ∀ r, w.activity ≠ .releasing r) (cycling : ∀ c, w.activity ≠ .cycling c) :
    w.Timely s :=
  ⟨fun r is => absurd is (releasing r), fun c is => absurd is (cycling c),
    fun c is => absurd is (cycling c)⟩

theorem timely_afterCommand {b : Batch} (idle : w.activity = afterCommand b) : w.Timely s := by
  rcases idle_afterCommand b with eq | ⟨_, eq⟩
  · exact timely_idle (by simp [idle, eq]) (by simp [idle, eq])
  · exact timely_idle (by simp [idle, eq]) (by simp [idle, eq])

theorem Timely.abort (h : w.Timely s) (aborted : Bool) : ({ w with aborted } : Worker).Timely s :=
  ⟨h.releasing, h.cycling, h.unheld⟩

theorem Timely.frame (h : w.Timely s) (now : s'.now = s.now) (clock : s'.clock = s.clock)
    (settings : s'.settings = s.settings) : w.Timely s' := by
  have before {deadline : Nat} (before : w.Before s deadline) : w.Before s' deadline := by
    rw [Before, now, clock, settings]
    exact before
  refine ⟨fun r is => before (h.releasing r is), fun c is => ?_, ?_⟩
  · rw [settings]
    exact (h.cycling c is).imp before fun late => late
  · rw [settings]
    exact h.unheld

theorem Timely.tick (h : w.Timely s) (now : s'.now = s.now + 1) (clock : s'.clock ≤ s.clock + 1)
    (settings : s'.settings = s.settings)
    (waits : ∀ deadline, w.deadline? = some deadline → s.now < deadline) : w.Timely s' := by
  have before {deadline : Nat} (ahead : s.now < deadline) (before : w.Before s deadline) :
      w.Before s' deadline := by
    intro point pledged
    rw [now, settings]
    have within := (before point pledged).resolve_left (by omega)
    push_cast
    omega
  refine ⟨fun r is => before (waits _ (by simp [deadline?, is])) (h.releasing r is), fun c is => ?_, ?_⟩
  · rw [settings]
    exact (h.cycling c is).imp (before (waits _ (by simp [deadline?, is]))) fun late => late
  · rw [settings]
    exact h.unheld

theorem allowance_eq (w : Worker) (s : Surroundings) : w.allowance s = match w.pledge? with
    | some point => Duration.ofMillis
        (Reading.sub (Reading.sub point s.settings.graceMillis) s.clock).toNat
    | none => s.settings.leaseDuration := by
  unfold allowance pledge?
  cases w.slots.holding with
  | false => rfl
  | true => cases w.confirmedUntil <;> rfl

theorem before_allowance (inside : Reading.min ≤ s.clock) :
    w.Before s (s.now + (w.allowance s).ceilMillis) := by
  intro point pledged
  rw [allowance_eq, pledged]
  simp only [Duration.ceilMillis_ofMillis]
  by_cases left : 0 < Reading.sub (Reading.sub point s.settings.graceMillis) s.clock
  · have within := Reading.add_sub_sub_le inside left
    refine .inr ?_
    push_cast
    omega
  · exact .inl (by omega)

theorem timely_purge (c : Cycle) (names : List String)
    (watched : w.Before s c.deadline ∨ c.limit = s.settings.leaseDuration) :
    (w.purge s c names).1.Timely s := by
  cases names with
  | nil => exact timely_idle (fun r is => by cases is) fun c is => by cases is
  | cons name rest =>
    refine ⟨fun r is => (by cases is), fun c' is => ?_, fun c' is _ other => ?_⟩
    · cases is
      exact watched.imp (fun before => before) fun limit => ⟨⟨name, rest, rfl⟩, limit⟩
    · cases is
      exact absurd rfl (other name rest)

theorem Timely.resume (h : w.Timely s) (sound : w.Sound s) {c : Cycle} (reply : Reply)
    (cycling : w.activity = .cycling c) : (w.resume s c reply).1.Timely s := by
  have plain_of {stage : Stage} (is : c.stage = stage) (plain : ∀ name rest, stage ≠ .purging name rest) :
      w.Before s c.deadline := by
    refine (h.cycling c cycling).resolve_right ?_
    rintro ⟨⟨name, rest, purging⟩, _⟩
    exact plain name rest (is.symm.trans purging)
  have asking {stage stage' : Stage} {request : Request} (is : c.stage = stage)
      (plain : ∀ name rest, stage ≠ .purging name rest) :
      (w.askNext s c stage' request).1.Timely s := by
    refine ⟨fun r is' => (by cases is'), fun c' is' => ?_, fun c' is' unheld _ => ?_⟩
    · cases is'
      exact .inl (plain_of is plain)
    · cases is'
      exact h.unheld c cycling unheld (is ▸ plain)
  unfold Worker.resume
  split
  · rename_i stage
    exact asking stage nofun
  · rename_i stage
    simp only
    split
    · exact asking stage nofun
    · exact asking stage nofun
  · rename_i stage
    exact asking stage nofun
  · rename_i stage
    refine timely_purge c _ ?_
    cases pledged : w.pledge? with
    | none => exact .inr (h.unheld c cycling pledged (by simp [stage]))
    | some point =>
      refine .inl fun point' pledged' => ?_
      -- What was confirmed before ends no later than what this cycle has written.
      have before : w.confirmedUntil = some point := (Option.ite_none_right_eq_some.mp pledged).2
      have after : some c.expiration = some point' := (Option.ite_none_right_eq_some.mp pledged').2
      have le := (sound.cycling c cycling).confirmed point before
      cases after
      exact (plain_of stage nofun point pledged).imp id fun within => by omega
  · exact timely_purge c _ ((h.cycling c cycling).imp id And.right)

/-- Deadlines keep leases from getting overdue in every step of a worker. -/
theorem Timely.move (h : w.Timely s) (sound : w.Sound s) (inside : Reading.min ≤ s.clock)
    (move : w.Move s queue store r) : r.worker.Timely s := by
  cases move with
  | @take c _ _ b listening =>
    rcases w.apply_activity c b with ⟨eq, _⟩ | ⟨⟨name, eq, _⟩, _⟩ | ⟨ticket, _, eq⟩
    · exact timely_afterCommand eq
    · exact timely_idle (by simp [eq]) (by simp [eq])
    · exact timely_idle (by simp [eq]) (by simp [eq])
  | beginCycle draining =>
    refine ⟨fun r is => (by cases is), fun c is => ?_, fun c is unheld _ => ?_⟩
    · cases is
      exact .inl (before_allowance inside)
    · cases is
      have unheld : w.pledge? = none := unheld
      change w.allowance s = _
      rw [allowance_eq, unheld]
  | beginRelease parting =>
    refine ⟨fun r is => ?_, fun c is => (by cases is), fun c is => (by cases is)⟩
    cases is
    exact before_allowance inside
  | @endRelease _ _ r releasing due => exact timely_afterCommand (b := r.batch) rfl
  | @abandonRelease _ _ r releasing pending late => exact timely_afterCommand (b := r.batch) rfl
  | resume cycling due answered => exact h.resume sound _ cycling
  | failCycle cycling due failed =>
    exact timely_idle (fun r is => by cases is) fun c is => by cases is
  | overrun cycling pending late =>
    exact timely_idle (fun r is => by cases is) fun c is => by cases is

end Worker

namespace World

variable {w w' : World}

/-- Every worker minds its deadlines. -/
def Prudent (w : World) : Prop := ∀ p ∈ w.participants, ∀ k, p.manager.worker = some k →
  k.Timely (w.surroundings p)

theorem Opening.prudent (opening : w.Opening) : w.Prudent := by
  intro p member k present
  simp [opening.no_worker member] at present

theorem Prudent.moved (h : w.Prudent) (guarded : w.Guarded) {i : Nat} {p : Participant} {m : Manager}
    {b : Backend} {notes : List Note} (moved : w.Moved i p m b notes w') : w'.Prudent := by
  intro q inside k present
  have member : p ∈ w.participants := List.mem_of_getElem? moved.present
  rw [moved.surroundings]
  rcases moved.mem_cases inside with rfl | ⟨_, _, old⟩
  · refine Worker.Timely.frame (s := w.surroundings p) ?_ rfl rfl moved.move.frame.2
    refine moved.move.worker_keeps (fun aborted => ?_) (fun _ aborted timely => timely.abort aborted)
      (fun k₀ r there step timely => ?_) (h p member) present
    · exact Worker.timely_idle (by simp [Worker.fresh]) (by simp [Worker.fresh])
    · exact timely.move (guarded.sound p member k₀ there) (p.clock.min_le_reading w.trueTime) step
  · exact h q (List.mem_of_getElem? old) k present

theorem Prudent.change (h : w.Prudent) (guarded : w.Guarded) {a : Action} (steady : a.Steady)
    (change : w.Change a w') : w'.Prudent := by
  cases change with
  | move moved => exact h.moved guarded moved
  | rest same =>
    intro p inside k present
    rw [same.surroundings]
    exact h p (same.participants ▸ inside) k present
  | tick quiet =>
    intro p inside k present
    obtain ⟨i, there⟩ := List.mem_iff_getElem?.mp inside
    have rests := (resting_of_quiet quiet there (guarded.placed p inside)).worker k present
    refine (h p inside k present).tick rfl (p.clock.reading_succ ?_) rfl fun deadline due => ?_
    · exact Reading.clamp_le_succ (by simp only [elapse]; omega)
    · rcases Worker.rest_cases rests.2 with ⟨waiting, _⟩ | ⟨_, deadline', _, due', _, ahead⟩
      · simp [Worker.deadline?, waiting] at due
      · rw [due'] at due
        exact Option.some.inj due ▸ ahead
  | setLink i link =>
    intro p' inside k present
    obtain ⟨j, there⟩ := List.mem_iff_getElem?.mp inside
    obtain ⟨p, _, before, rfl⟩ := setLink_participant there
    exact (h p (List.mem_of_getElem? before) k present).frame rfl rfl rfl
  | setClock | use | land => exact steady.elim

/-! ## Overdue leases -/

/-- Clocks of managers that share a store are no more than a grace window apart. -/
def Near (w : World) : Prop := ∀ p ∈ w.participants, ∀ q ∈ w.participants, p.store = q.store →
  q.clock.reading w.trueTime ≤ p.clock.reading w.trueTime + p.manager.settings.graceMillis

/-- The manager holds the lease although its clock is past the point up to which the lease is
    confirmed, less the grace window. -/
def Overdue (w : World) (i : Nat) (name : String) : Prop :=
  ∃ p k slot point, w.participants[i]? = some p ∧ p.manager.worker = some k
    ∧ k.slots.find? name = some slot ∧ slot.acquired = true ∧ k.confirmedUntil = some point
    ∧ point - p.manager.settings.graceMillis < (w.surroundings p).clock

/-- No deadline watches the leases of the manager: its worker is idle between cycles, or deletes other
    rows at the end of a cycle that began when no lease was held. -/
def Unwatched (w : World) (i : Nat) : Prop :=
  ∃ p k, w.participants[i]? = some p ∧ p.manager.worker = some k
    ∧ (k.activity = .waiting ∨ ∃ c name rest, k.activity = .cycling c
      ∧ c.stage = .purging name rest ∧ c.limit = p.manager.settings.leaseDuration)

/-- A lease whose row somebody may collect is overdue. -/
theorem overdue_of_late (near : w.Near) {i : Nat} {p : Participant} {k : Worker} {name : String}
    {slot : Slot} {point : Int} (there : w.participants[i]? = some p)
    (present : p.manager.worker = some k) (found : k.slots.find? name = some slot)
    (acquired : slot.acquired = true) (confirmed : k.confirmedUntil = some point)
    (late : w.Late p.store point) : w.Overdue i name := by
  obtain ⟨q, inside, shared, past⟩ := late
  have apart := near p (List.mem_of_getElem? there) q inside shared.symm
  refine ⟨p, k, slot, point, there, present, found, acquired, confirmed, ?_⟩
  change point - p.manager.settings.graceMillis < p.clock.reading w.trueTime
  omega

theorem Guarded.overdue_of_both (h : w.Guarded) (near : w.Near) {i j : Nat} {p q : Participant}
    (ne : i ≠ j) (there : w.participants[i]? = some p) (there' : w.participants[j]? = some q)
    (shared : p.store = q.store) {name : String} {id id' : Nat} (holds : w.Holds i name id)
    (holds' : w.Holds j name id') : w.Overdue i name ∨ w.Overdue j name := by
  obtain ⟨p', k, there₁, present, flag⟩ := holds
  obtain ⟨q', l, there₂, present', flag'⟩ := holds'
  obtain rfl := Option.some.inj (there.symm.trans there₁)
  obtain rfl := Option.some.inj (there'.symm.trans there₂)
  obtain ⟨slot, found, _, acquired⟩ := (Slots.holds_iff _ _ _).mp flag
  obtain ⟨slot', found', _, acquired'⟩ := (Slots.holds_iff _ _ _).mp flag'
  rcases h.late_of_both ne there there' shared present present' found acquired found' acquired'
    with ⟨point, confirmed, late⟩ | ⟨point, confirmed, late⟩
  · exact .inl (overdue_of_late near there present found acquired confirmed late)
  · exact .inr (overdue_of_late near there' present' found' acquired' confirmed late)

/-- While a deadline watches it, no lease gets overdue. -/
theorem Prudent.unwatched (h : w.Prudent) (guarded : w.Guarded) (quiet : w.isQuiet = true) {i : Nat}
    {name : String} (overdue : w.Overdue i name) : w.Unwatched i := by
  obtain ⟨p, k, slot, point, there, present, found, acquired, confirmed, past⟩ := overdue
  have inside : p ∈ w.participants := List.mem_of_getElem? there
  have rests := (resting_of_quiet quiet there (guarded.placed p inside)).worker k present
  have timely := h p inside k present
  have pledged : k.pledge? = some point := by
    rw [Worker.pledge?, if_pos (Slots.holding_of_find? found acquired), confirmed]
  have watched {deadline : Nat} (ahead : w.now < deadline)
      (before : k.Before (w.surroundings p) deadline) : False := by
    rcases before point pledged with due | within
    · exact absurd due (not_le.mpr ahead)
    · change (w.surroundings p).clock + deadline ≤ point - p.manager.settings.graceMillis + w.now at within
      omega
  refine ⟨p, k, there, present, ?_⟩
  rcases Worker.rest_cases rests.2 with ⟨waiting, _⟩ | ⟨_, deadline, _, due, _, ahead⟩
  · exact .inl waiting
  · cases activity : k.activity with
    | waiting | draining | parting => simp [Worker.deadline?, activity] at due
    | releasing r =>
      obtain rfl : r.deadline = deadline := by simpa [Worker.deadline?, activity] using due
      exact (watched ahead (timely.releasing r activity)).elim
    | cycling c =>
      obtain rfl : c.deadline = deadline := by simpa [Worker.deadline?, activity] using due
      rcases timely.cycling c activity with before | ⟨⟨name, rest, purging⟩, limit⟩
      · exact (watched ahead before).elim
      · exact .inr ⟨c, name, rest, rfl, purging, limit⟩

/-- Whatever becomes of the calls that managers wait for, as long as no call that they have given up is
    carried out late and clocks are no more than a grace window apart: two managers hold the same lease
    only while it is overdue with one of them, a lease gets overdue before anybody may collect its row,
    and it never does so while a deadline watches it. -/
theorem exclusion_unless_overdue {start w : World} {actions : List Action} (opening : start.Opening)
    (steady : ∀ a ∈ actions, a.Steady) (run : start.run? actions = some w) (near : w.Near) :
    (∀ i j p q name id id', i ≠ j → w.participants[i]? = some p → w.participants[j]? = some q →
        p.store = q.store → w.Holds i name id → w.Holds j name id' →
          w.Overdue i name ∨ w.Overdue j name)
      ∧ (∀ i j p q h h', i ≠ j → w.participants[i]? = some p → w.participants[j]? = some q →
        p.store = q.store → w.Shown i h → w.Shown j h' → h.name = h'.name →
          w.Overdue i h.name ∨ w.Overdue j h.name)
      ∧ (∀ i p k name slot point, w.participants[i]? = some p → p.manager.worker = some k →
        k.slots.find? name = some slot → slot.acquired = true → k.confirmedUntil = some point →
          w.Late p.store point → w.Overdue i name)
      ∧ (w.isQuiet = true → ∀ i name, w.Overdue i name → w.Unwatched i) := by
  have reachable : w.Reachable := ⟨start, actions, opening.begins, run⟩
  have both : w.Guarded ∧ w.Prudent := by
    refine run?_preserves (P := fun v => v.Guarded ∧ v.Prudent) (fun _ _ _ h steady change => ?_)
      steady run ⟨opening.guarded, opening.prudent⟩
    exact ⟨h.1.change steady change, h.2.change h.1 steady change⟩
  obtain ⟨guarded, prudent⟩ := both
  refine ⟨fun i j p q name id id' ne there there' shared holds holds' => ?_,
    fun i j p q h h' ne there there' shared shown shown' same => ?_,
    fun i p k name slot point there present found acquired confirmed late => ?_,
    fun quiet i name overdue => prudent.unwatched guarded quiet overdue⟩
  · exact guarded.overdue_of_both near ne there there' shared holds holds'
  · exact guarded.overdue_of_both near ne there there' shared (reachable.holds_of_shown shown)
      (same ▸ reachable.holds_of_shown shown')
  · exact overdue_of_late near there present found acquired confirmed late

/-- Two managers whose clocks are one grace window apart. -/
def rivals : Fleet where
  epoch := 0
  store := .freshMemory
  millis := 8
  members := [⟨"a", 0⟩, ⟨"b", 2⟩]
  keyed := MemoryStore.keyed_empty
  distinct := by decide
  near := by decide

/-- A run in which a cycle of the first manager fails before its lease is overdue. Its worker is idle
    until the second manager has collected the row. -/
def outage : List Action :=
  .start 0 :: turn 0 (.attempt 0) 4 ++ .create 0 "x" :: turn 0 .scheduler 2 ++ turn 0 .worker 9
    ++ turn 0 .scheduler 2 ++ List.replicate 3 .tick
    ++ .start 1 :: turn 1 (.attempt 1) 4 ++ .create 1 "x" :: turn 1 .scheduler 2 ++ turn 1 .worker 9
    ++ turn 1 .scheduler 2 ++ [.setLink 0 { failing := [.deleteExpired] }, .tick]
    ++ turn 0 .scheduler 3 ++ turn 0 .worker 4 ++ turn 0 .scheduler 2 ++ List.replicate 3 .tick
    ++ turn 1 .scheduler 3 ++ turn 1 .worker 7 ++ turn 1 .scheduler 2

theorem exclusion_unless_overdue_outage : ∃ (w : World) (h h' : Handle), rivals.founded.Opening
    ∧ (∀ a ∈ outage, a.Steady) ∧ rivals.founded.run? outage = some w ∧ w.Near ∧ w.isQuiet = true
    ∧ w.Shown 0 h ∧ w.Shown 1 h' ∧ h.name = h'.name ∧ w.Overdue 0 h.name ∧ w.Unwatched 0 := by
  have steady : ∀ a ∈ outage, a.Steady := by decide
  let x : Handle := ⟨"x", 0, false, true⟩
  obtain ⟨w, p, q, run, both, clock, clock', grace, grace', quiet, shared, shown, shown', punctual⟩ :
      ∃ (w : World) (p q : Participant), rivals.founded.run? outage = some w
        ∧ w.participants = [p, q] ∧ p.clock.reading w.trueTime = 7 ∧ q.clock.reading w.trueTime = 9
        ∧ p.manager.settings.graceMillis = 2 ∧ q.manager.settings.graceMillis = 2
        ∧ w.isQuiet = true ∧ p.store = q.store ∧ w.Shown 0 x ∧ w.Shown 1 x ∧ ¬ w.Overdue 1 "x" := by
    refine ⟨_, _, _, rfl, rfl, rfl, rfl, rfl, rfl, rfl, rfl, ⟨_, rfl, rfl, .head _, rfl⟩,
      ⟨_, rfl, rfl, .head _, rfl⟩, ?_⟩
    rintro ⟨p, k, slot, point, there, present, _, _, confirmed, past⟩
    cases there
    cases present
    cases confirmed
    exact absurd past (by decide +kernel)
  have near : w.Near := by
    intro p' member q' member' _
    simp only [both, List.mem_cons, List.not_mem_nil, or_false] at member member'
    rcases member with rfl | rfl <;> rcases member' with rfl | rfl <;> omega
  obtain ⟨_, handles, _, watch⟩ := exclusion_unless_overdue rivals.founded_opening steady run near
  have overdue := (handles 0 1 p q x x (by decide) (by simp [both]) (by simp [both]) shared shown
    shown' rfl).resolve_right punctual
  exact ⟨w, x, x, rivals.founded_opening, steady, run, near, quiet, shown, shown', rfl, overdue,
    watch quiet 0 "x" overdue⟩

end World

end Leasehold
