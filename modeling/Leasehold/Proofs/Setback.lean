import Leasehold.Proofs.Retention
import Leasehold.Proofs.Trouble

/-! # A cycle that fails

Every call of a manager is answered at once, except that a call of one cycle fails soon after the cycle
has begun. The failed cycle takes nothing from anybody: what is confirmed lasts longer than the call may
take. The question is whether the rows last until the next cycle, which the scheduler asks for one pause
after the failure. `Manager.Outlasts` says so of a row, `Manager.Lagging` of all rows of the leases that
are held, from the beginning of the cycle that fails on.
-/

namespace Leasehold

theorem Reading.lt_clamp {x y : Int} (above : y < x) (room : y < max) : y < clamp x := by
  unfold clamp
  split
  · omega
  · split <;> omega

namespace Call

theorem le_due_place {link : Link} {now due : Nat} {request : Request}
    (placed : (place link now request).due = some due) : now ≤ due := by
  simp only [place] at placed
  split at placed
  · cases placed
  · cases placed
    exact Nat.le_add_right _ _

theorem held_of_lost {c : Call} (lost : c.fate = .lose) (caller : Caller) (trueTime : Int)
    {store : Backend} (ready : store.isReady = true) (keyed : store.Keyed) :
    (c.finish caller trueTime store).2.1.held = c.request.effect store.held := by
  obtain ⟨reply, performed⟩ := Backend.perform_ok ready (c.link.storeClock trueTime) c.request
  simp only [finish, lost]
  exact Backend.held_perform keyed performed

end Call

/-- The rows have been refreshed by the time the call ends that the cycle waits for. -/
def Cycle.Refreshed (c : Cycle) : Prop :=
  c.stage ≠ .collecting ∧ (c.stage = .refreshing → c.call.fate = .lose)

instance (c : Cycle) : Decidable c.Refreshed := inferInstanceAs (Decidable (_ ∧ _))

namespace Worker

variable {w : Worker} {s s' : Surroundings} {queue : List Command} {store : Backend} {r : WorkerStep}
  {late : Int → Prop} {name : String} {slot : Slot}

/-! ## What a step leaves -/

theorem Move.acquired_cases (move : w.Move s queue store r)
    (found : r.worker.slots.find? name = some slot) (acquired : slot.acquired = true) :
    w.slots.find? name = some slot
      ∨ ∃ c, w.activity = .cycling c ∧ c.call.fate = .answer
        ∧ r.worker.confirmedUntil = some c.expiration := by
  cases move with
  | take listening => exact .inl (find?_apply found acquired)
  | beginCycle | beginRelease | endRelease => exact .inl found
  | abandonRelease | failCycle | overrun => exact .inl (find?_giveUp found acquired)
  | @resume _ _ c reply cycling due answered =>
    rcases w.resume_eq s c reply with ⟨_, activity, eq⟩ | ⟨_, activity, eq⟩
    · rw [eq] at found
      exact .inl found
    · exact .inr ⟨c, cycling, Call.fate_of_answered answered, by rw [eq]; rfl⟩

/-- A step leaves the row of a lease whose time is not over, or moves it to the end that its cycle
    writes. -/
theorem Move.keeps_row (move : w.Move s queue store r) (sound : w.Sound s) (keyed : store.Keyed)
    (point : Int) {e : Int} (found : w.slots.find? name = some slot)
    (written : ∀ c, w.activity = .cycling c → point ≤ c.expiration) (lasts : point ≤ e)
    (live : s.clock ≤ point) (row : store.held name = some ⟨s.owner, e⟩) :
    ∃ e', point ≤ e' ∧ r.store.held name = some ⟨s.owner, e'⟩ := by
  rcases move.held_cases keyed with same | ⟨call, called, done⟩
  · exact ⟨e, lasts, same ▸ row⟩
  · rw [done]
    rcases sound.keeps_row called found written lasts row with kept | spent
    · exact kept
    · omega

/-- A call that fails after the refresh leaves every lease a row with the end that the cycle writes. -/
theorem Backed.refreshed (backed : w.Backed s.owner store.held late) (sound : w.Sound s)
    (keyed : store.Keyed) (ready : store.isReady = true)
    (punctual : ∀ point, w.confirmedUntil = some point → ¬ late point) {c : Cycle}
    (cycling : w.activity = .cycling c) (refreshed : c.Refreshed) (live : s.clock ≤ c.expiration)
    (found : w.slots.find? name = some slot) (acquired : slot.acquired = true) :
    ∃ e, c.expiration ≤ e
      ∧ (c.call.finish .worker s.trueTime store).2.1.held name = some ⟨s.owner, e⟩ := by
  obtain ⟨point, known, past⟩ := backed.backed name slot found acquired
  obtain ⟨e, lasts, row⟩ := past.resolve_right (punctual point known)
  have called : w.call? = some c.call := by simp [call?, cycling]
  have kept (current : c.expiration ≤ e) : ∃ e, c.expiration ≤ e
      ∧ (c.call.finish .worker s.trueTime store).2.1.held name = some ⟨s.owner, e⟩ := by
    rcases c.call.finish_held .worker s.trueTime keyed with same | ⟨done, _⟩
    · exact ⟨e, current, same ▸ row⟩
    · rw [done]
      have written (c' : Cycle) (is : w.activity = .cycling c') : c.expiration ≤ c'.expiration := by
        cases cycling.symm.trans is
        exact le_rfl
      rcases sound.keeps_row called found written current row with still | spent
      · exact still
      · omega
  cases stage : c.stage with
  | collecting => exact absurd stage refreshed.1
  | refreshing =>
    have lost := refreshed.2 stage
    obtain ⟨start, _, _, asks⟩ := (sound.cycling c cycling).begun
    simp only [Cycle.Asks, stage] at asks
    rw [Call.held_of_lost lost _ _ ready keyed, asks]
    exact ⟨c.expiration, le_rfl, by simp [Request.effect, row]⟩
  | claiming => exact kept (backed.current cycling (.inl stage) row)
  | selecting => exact kept (backed.current cycling (.inr stage) row)
  | purging other rest =>
    have confirmed := ((sound.cycling c cycling).purging other rest stage).2
    cases known.symm.trans confirmed
    exact kept lasts

theorem Move.fails (move : w.Move s queue store r) {c : Cycle} (cycling : w.activity = .cycling c)
    (fate : c.call.fate ≠ .answer) (ahead : s.now < c.deadline) (safe : w.mustGiveUp s = false) :
    r.worker = { w with activity := .waiting }
      ∧ r.store = (c.call.finish .worker s.trueTime store).2.1 ∧ eventsIn r.notes = [] := by
  cases move with
  | take listening => simp [batch?, cycling] at listening
  | beginCycle other => cases cycling.symm.trans other
  | beginRelease other => cases cycling.symm.trans other
  | endRelease other due => cases cycling.symm.trans other
  | abandonRelease other pending late => cases cycling.symm.trans other
  | resume same due answered =>
    cases cycling.symm.trans same
    exact absurd (Call.fate_of_answered answered) fate
  | @failCycle _ _ _ e same due failed =>
    cases cycling.symm.trans same
    refine ⟨by rw [failCycle_eq, giveUp_of_safe safe], rfl, ?_⟩
    rw [eventsIn_append, eventsIn_finish, eventsIn_failCycle, giveUp_of_safe safe]
    rfl
  | overrun same pending late =>
    cases cycling.symm.trans same
    omega

theorem mustGiveUp_of_ahead (room : s.clock < Reading.max)
    (ahead : ∀ point, w.confirmedUntil = some point → s.clock < point - s.settings.graceMillis) :
    w.mustGiveUp s = false := by
  unfold mustGiveUp
  split
  · rfl
  · rename_i point known
    have before : s.clock < Reading.sub point s.settings.graceMillis :=
      Reading.lt_clamp (ahead point known) room
    simpa using before

theorem lt_allowance {delay : Nat} (whole : delay < s.settings.leaseDuration.ceilMillis)
    (room : s.clock + delay < Reading.max) (short : delay < Reading.max)
    (ahead : ∀ point, w.confirmedUntil = some point →
      s.clock + delay < point - s.settings.graceMillis) : delay < (w.allowance s).ceilMillis := by
  unfold allowance
  split
  · rename_i point _ known
    have first : s.clock + delay < Reading.sub point s.settings.graceMillis :=
      Reading.lt_clamp (ahead point known) room
    have last : delay < Reading.sub (Reading.sub point s.settings.graceMillis) s.clock :=
      Reading.lt_clamp (by omega) short
    rw [Duration.ceilMillis_ofMillis]
    omega
  · exact whole

end Worker

/-! ## The instant at which the cycle begins that fails -/

/-- The clock runs with time, no reading stops at the end of the range, and a cycle that begins at
    `begun` writes the expiration `mark`. -/
structure Surroundings.Timed (s : Surroundings) (mark : Int) (begun delay : Nat) : Prop where
  mark : s.clock + s.settings.leaseMillis + begun = mark + s.now
  room : s.clock + s.settings.leaseMillis ≤ Reading.max
  fits : Reading.add s.clock s.settings.leaseMillis = s.clock + s.settings.leaseMillis
  whole : s.settings.leaseMillis ≤ s.settings.leaseDuration.ceilMillis
  least : 4 ≤ s.settings.leaseMillis
  most : s.settings.leaseMillis ≤ Reading.max
  pause : 2 * (Manager.pause s : Int) ≤ s.settings.leaseMillis + 1
  grace : 4 * s.settings.graceMillis ≤ s.settings.leaseMillis
  delay : 8 * (delay : Int) ≤ s.settings.leaseMillis

/-- The cycle that fails: it began at `begun`, and either its rows have been refreshed before, or two
    pauses and the delay fit into a lease. -/
structure Cycle.Fails (c : Cycle) (s : Surroundings) (mark : Int) (begun delay : Nat) : Prop where
  writes : c.expiration = mark
  fate : c.call.fate ≠ .answer
  due : ∃ due ∈ c.call.due, due ≤ begun + delay
  bearable : c.Refreshed ∨ 2 * (Manager.pause s : Int) + delay ≤ s.settings.leaseMillis

instance (c : Call) (now : Nat) : Decidable (c.Prompt now) :=
  decidable_of_iff (c.fate = .answer ∧ c.isDue now = true)
    ⟨fun h => ⟨h.1, h.2⟩, fun h => ⟨h.answer, h.due⟩⟩

instance (c : Cycle) (s : Surroundings) (mark : Int) (begun delay : Nat) :
    Decidable (c.Fails s mark begun delay) :=
  decidable_of_iff (c.expiration = mark ∧ c.call.fate ≠ .answer
      ∧ (∃ due ∈ c.call.due, due ≤ begun + delay)
      ∧ (c.Refreshed ∨ 2 * (Manager.pause s : Int) + delay ≤ s.settings.leaseMillis))
    ⟨fun h => ⟨h.1, h.2.1, h.2.2.1, h.2.2.2⟩, fun h => ⟨h.writes, h.fate, h.due, h.bearable⟩⟩

namespace Worker

variable {w : Worker} {s s' : Surroundings} {queue : List Command} {store : Backend} {r : WorkerStep}
  {mark : Int} {begun delay : Nat}

/-- The cycle that a worker is in. -/
def cycle? (w : Worker) : Option Cycle :=
  match w.activity with
  | .cycling c => some c
  | _ => none

theorem cycle?_iff {c : Cycle} : w.cycle? = some c ↔ w.activity = .cycling c := by
  cases activity : w.activity <;> simp [cycle?, activity]

/-- The calls of a worker are answered at once, except in the cycle that fails. -/
def Mild (w : Worker) (s : Surroundings) (mark : Int) (begun delay : Nat) : Prop :=
  (∀ call ∈ w.call?, call.Prompt s.now) ∨ ∃ c ∈ w.cycle?, c.Fails s mark begun delay

instance (s : Surroundings) (mark : Int) (begun delay : Nat) : Decidable (w.Mild s mark begun delay) :=
  inferInstanceAs (Decidable (_ ∨ _))

theorem Mild.cases (h : w.Mild s mark begun delay) :
    (∀ call, w.call? = some call → call.Prompt s.now)
      ∨ ∃ c, w.activity = .cycling c ∧ c.Fails s mark begun delay :=
  h.imp id fun ⟨c, there, fails⟩ => ⟨c, cycle?_iff.mp there, fails⟩

/-- From the beginning of that cycle on, what is confirmed is recent enough for it. -/
structure Braced (s : Surroundings) (mark : Int) (begun delay : Nat) (w : Worker) : Prop where
  confirmed : ∀ point, w.confirmedUntil = some point → mark ≤ point + Manager.pause s
  /-- No cycle lasts whose calls are answered. -/
  written : ∀ c, w.activity = .cycling c → c.call.fate = .answer →
    c.expiration = s.clock + s.settings.leaseMillis
  patient : ∀ c, w.activity = .cycling c → c.expiration = mark → begun + delay < c.deadline
  punctual : ∀ call due, w.call? = some call → call.due = some due → s.now ≤ due

theorem braced_fresh (aborted : Bool) :
    ({ fresh with aborted } : Worker).Braced s mark begun delay := by
  constructor <;> simp [fresh, call?]

theorem Braced.abort (h : w.Braced s mark begun delay) (aborted : Bool) :
    ({ w with aborted } : Worker).Braced s mark begun delay :=
  ⟨h.confirmed, h.written, h.patient, h.punctual⟩

theorem Braced.move (h : w.Braced s mark begun delay) (timed : s.Timed mark begun delay)
    (after : begun ≤ s.now) (move : w.Move s queue store r) : r.worker.Braced s mark begun delay := by
  have ⟨marked, room, fits, whole, least, most, pause, grace, short⟩ := timed
  refine ⟨fun point known => ?_, fun c cycling fate => ?_, fun c cycling first => ?_,
    fun call due called placed => ?_⟩
  · rcases move.confirmed_cases with same | ⟨c, cycling, fate, written⟩
    · exact h.confirmed point (same ▸ known)
    · have current := h.written c cycling fate
      cases written.symm.trans known
      omega
  · rcases move.cycle_cases cycling with ⟨tickets, new⟩ | ⟨c₀, stage, call, before, answered, rfl⟩
    · rw [new] at cycling
      cases cycling
      exact fits
    · exact h.written c₀ before answered
  · rcases move.cycle_cases cycling with ⟨tickets, new⟩ | ⟨c₀, stage, call, before, _, rfl⟩
    · rw [new] at cycling
      cases cycling
      change Reading.add s.clock s.settings.leaseMillis = mark at first
      -- What is confirmed was written one pause ago at most.
      have allowed : delay < (w.allowance s).ceilMillis := by
        refine lt_allowance (by omega) (by omega) (by omega) fun point known => ?_
        have recent := h.confirmed point known
        omega
      change begun + delay < s.now + (w.allowance s).ceilMillis
      omega
    · exact h.patient c₀ before first
  · obtain ⟨request, rfl⟩ := move.placed called
    exact Call.le_due_place placed

theorem Braced.tick (h : w.Braced s mark begun delay) (mild : w.Mild s mark begun delay)
    (rests : w.step s queue store = none) (now : s'.now = s.now + 1)
    (settings : s'.settings = s.settings) : w.Braced s' mark begun delay := by
  have pending {call : Call} (called : w.call? = some call) : call.isDue s.now = false := by
    rcases rest_cases rests with ⟨waiting, _⟩ | ⟨call', _, called', _, pending, _⟩
    · simp [call?, waiting] at called
    · cases called.symm.trans called'
      exact pending
  refine ⟨?_, fun c cycling fate => ?_, h.patient, fun call due called placed => ?_⟩
  · rw [Manager.pause, settings]
    exact h.confirmed
  · have called : w.call? = some c.call := by simp [call?, cycling]
    rcases mild.cases with prompt | ⟨c', cycling', fails⟩
    · exact absurd (pending called) (prompt _ called).not_pending
    · cases cycling.symm.trans cycling'
      exact absurd fate fails.fate
  · have ahead := pending called
    simp only [Call.isDue, placed, Option.any_some, decide_eq_false_iff_not, not_le] at ahead
    omega

theorem Move.lossless (move : w.Move s queue store r) (sound : w.Sound s) (ready : store.isReady = true)
    (keyed : store.Keyed) (covered : w.Covered s.owner store.held) (slots : w.slots.Keyed)
    (admits : w.slots.ledger.Admits queue)
    (calls : (∀ call, w.call? = some call → call.Prompt s.now)
      ∨ ∃ c, w.activity = .cycling c ∧ c.call.fate ≠ .answer ∧ s.now < c.deadline
        ∧ w.mustGiveUp s = false) : Lossless r.notes := by
  rcases calls with prompt | ⟨c, cycling, fate, ahead, safe⟩
  · exact (move.retains sound prompt ready keyed covered slots admits).2
  · exact lossless_of_quiet (move.fails cycling fate ahead safe).2.2

theorem Braced.bears (h : w.Braced s mark begun delay) (timed : s.Timed mark begun delay) {c : Cycle}
    (cycling : w.activity = .cycling c) (fails : c.Fails s mark begun delay) :
    s.now ≤ begun + delay ∧ s.now < c.deadline ∧ w.mustGiveUp s = false := by
  obtain ⟨due, placed, soon⟩ := fails.due
  have now := h.punctual c.call due (by simp [call?, cycling]) placed
  have deadline := h.patient c cycling fails.writes
  obtain ⟨marked, room, fits, whole, least, most, pause, grace, short⟩ := timed
  refine ⟨by omega, by omega, mustGiveUp_of_ahead (by omega) fun point known => ?_⟩
  have recent := h.confirmed point known
  omega

end Worker

namespace Manager

variable {m m' : Manager} {s s' : Surroundings} {store b : Backend} {notes : List Note}
  {mark e : Int} {begun delay : Nat} {scheduler : Option Scheduler}

/-! ## Rows that last until the next cycle -/

/-- A row that ends at `e` lasts until the cycle that the scheduler asks for next. -/
structure Outlasts (s : Surroundings) (mark : Int) (scheduler : Option Scheduler) (e : Int) : Prop where
  recent : mark ≤ e + pause s
  live : s.clock ≤ e
  acknowledged : ∀ sc, scheduler = some sc → sc.pacing = .acknowledged → s.clock + pause s ≤ e
  sleeping : ∀ sc wake, scheduler = some sc → sc.pacing = .sleeping wake → s.clock + wake ≤ e + s.now

theorem Outlasts.mono (h : Outlasts s mark scheduler e) {e' : Int} (le : e ≤ e') :
    Outlasts s mark scheduler e' where
  recent := by have := h.recent; omega
  live := by have := h.live; omega
  acknowledged sc present done := by have := h.acknowledged sc present done; omega
  sleeping sc wake present sleeps := by have := h.sleeping sc wake present sleeps; omega

theorem outlasts_of_pause (recent : mark ≤ e + pause s) (lasts : s.clock + pause s ≤ e)
    (waking : ∀ sc wake, scheduler = some sc → sc.pacing = .sleeping wake → wake ≤ s.now + pause s) :
    Outlasts s mark scheduler e where
  recent := recent
  live := by omega
  acknowledged _ _ _ := lasts
  sleeping sc wake present sleeps := by
    have := waking sc wake present sleeps
    omega

/-- From the beginning of the cycle that fails on: every lease that is held has a row that lasts until
    the next cycle. -/
structure Lagging (s : Surroundings) (store : Backend) (mark : Int) (begun delay : Nat) (m : Manager) :
    Prop where
  braced : ∀ w, m.worker = some w → w.Braced s mark begun delay
  waking : ∀ w sc wake, m.worker = some w → m.scheduler = some sc → sc.pacing = .sleeping wake →
    wake ≤ s.now + pause s
  rows : ∀ w name slot, m.worker = some w → w.slots.find? name = some slot → slot.acquired = true →
    ∃ e, Outlasts s mark m.scheduler e ∧ store.held name = some ⟨s.owner, e⟩

theorem lagging_of_none (none : m.worker = none) : m.Lagging s store mark begun delay := by
  constructor <;> simp [none]

section Work

variable (h : m.Lagging s store mark begun delay) (timed : s.Timed mark begun delay) {k : Worker}
  {r : WorkerStep} (present : m.worker = some k) (step : k.Move s m.queue store r) (sound : k.Sound s)
  (keyed : store.Keyed) (ready : store.isReady = true)
  (backed : k.Backed s.owner store.held (· < s.clock))

include h timed present step sound keyed ready backed

theorem Lagging.rows_answered (after : begun ≤ s.now)
    (prompt : ∀ call, k.call? = some call → call.Prompt s.now)
    (waking : ∀ sc wake, m'.scheduler = some sc → sc.pacing = .sleeping wake →
      wake ≤ s.now + pause s)
    (scheduler : m'.scheduler = m.scheduler.map (r.notes.foldl Scheduler.hear)) {name : String}
    {slot : Slot} (found : r.worker.slots.find? name = some slot) (acquired : slot.acquired = true) :
    ∃ e, Outlasts s mark m'.scheduler e ∧ r.store.held name = some ⟨s.owner, e⟩ := by
  have ⟨marked, room, fits, whole, least, most, half, grace, short⟩ := timed
  have braced := h.braced k present
  have full {e : Int} (le : s.clock + s.settings.leaseMillis ≤ e) :
      Outlasts s mark m'.scheduler e :=
    outlasts_of_pause (by omega) (by omega) waking
  have written (c : Cycle) (cycling : k.activity = .cycling c) :
      c.expiration = s.clock + s.settings.leaseMillis :=
    braced.written c cycling (prompt c.call (by simp [Worker.call?, cycling])).answer
  by_cases new : r.worker.confirmedUntil = some (s.clock + s.settings.leaseMillis)
  · obtain ⟨point, known, past⟩ :=
      (backed.move sound keyed (fun _ => id) step).backed name slot found acquired
    cases known.symm.trans new
    obtain ⟨e, lasts, row⟩ := past.resolve_right (by omega)
    exact ⟨e, full lasts, row⟩
  · -- No cycle has ended: neither scheduler nor confirmation has changed.
    have unheard : m'.scheduler = m.scheduler := by
      rw [scheduler]
      cases there : m.scheduler with
      | none => rfl
      | some sc =>
        rcases sc.hear_cases r.notes with ⟨unheard, _⟩ | ⟨⟨t, _, told⟩, _⟩
        · exact congrArg some unheard
        · obtain ⟨c, cycling, confirmed⟩ := step.acknowledged sound prompt ready told
          exact absurd (written c cycling ▸ confirmed) new
    have before : k.slots.find? name = some slot := by
      refine (step.acquired_cases found acquired).resolve_right ?_
      rintro ⟨c, cycling, _, confirmed⟩
      exact new (written c cycling ▸ confirmed)
    obtain ⟨e, lasts, row⟩ := h.rows k name slot present before acquired
    have live := lasts.live
    obtain ⟨e', le, row'⟩ := step.keeps_row sound keyed
      (min e (s.clock + s.settings.leaseMillis)) before
      (fun c cycling => (written c cycling).symm ▸ min_le_right _ _) (min_le_left _ _) (by omega) row
    refine ⟨e', ?_, row'⟩
    rcases min_le_iff.mp le with old | current
    · rw [unheard]
      exact lasts.mono old
    · exact full current

theorem Lagging.rows_failed {c : Cycle} (cycling : k.activity = .cycling c)
    (fails : c.Fails s mark begun delay)
    (waking : ∀ sc wake, m'.scheduler = some sc → sc.pacing = .sleeping wake →
      wake ≤ s.now + pause s)
    {name : String} {slot : Slot} (found : r.worker.slots.find? name = some slot)
    (acquired : slot.acquired = true) :
    ∃ e, Outlasts s mark m'.scheduler e ∧ r.store.held name = some ⟨s.owner, e⟩ := by
  have braced := h.braced k present
  obtain ⟨soon, ahead, safe⟩ := braced.bears timed cycling fails
  obtain ⟨worker, store_eq, _⟩ := step.fails cycling fails.fate ahead safe
  have ⟨marked, room, fits, whole, least, most, half, grace, short⟩ := timed
  have writes := fails.writes
  rw [worker] at found
  rcases fails.bearable with refreshed | fit
  · have punctual (point : Int) (known : k.confirmedUntil = some point) : ¬ point < s.clock := by
      have recent := braced.confirmed point known
      omega
    obtain ⟨e, lasts, row⟩ := backed.refreshed sound keyed ready punctual cycling refreshed (by omega)
      found acquired
    exact ⟨e, outlasts_of_pause (by omega) (by omega) waking, store_eq ▸ row⟩
  · obtain ⟨e, lasts, row⟩ := h.rows k name slot present found acquired
    have recent := lasts.recent
    have live := lasts.live
    have written (c' : Cycle) (is : k.activity = .cycling c') : min e mark ≤ c'.expiration := by
      cases cycling.symm.trans is
      exact writes ▸ min_le_right _ _
    obtain ⟨e', le, row'⟩ :=
      step.keeps_row sound keyed (min e mark) found written (min_le_left _ _) (by omega) row
    exact ⟨e', outlasts_of_pause (by omega) (by omega) waking, row'⟩

theorem Lagging.work (after : begun ≤ s.now) (mild : k.Mild s mark begun delay)
    (worker : m'.worker = some r.worker)
    (scheduler : m'.scheduler = m.scheduler.map (r.notes.foldl Scheduler.hear)) :
    m'.Lagging s r.store mark begun delay := by
  have waking (sc : Scheduler) (wake : Nat) (there : m'.scheduler = some sc)
      (sleeps : sc.pacing = .sleeping wake) : wake ≤ s.now + pause s := by
    rw [scheduler] at there
    obtain ⟨sc₀, before, rfl⟩ := Option.map_eq_some_iff.mp there
    rcases sc₀.hear_cases r.notes with ⟨unheard, _⟩ | ⟨_, heard⟩
    · exact h.waking k sc₀ wake present before (unheard ▸ sleeps)
    · cases heard.symm.trans sleeps
  refine ⟨fun w there => ?_, fun w sc wake _ => waking sc wake,
    fun w name slot there found acquired => ?_⟩
  all_goals
    rw [worker] at there
    obtain rfl := Option.some.inj there
  · exact (h.braced k present).move timed after step
  · rcases mild.cases with prompt | ⟨c, cycling, fails⟩
    · exact h.rows_answered timed present step sound keyed ready backed after prompt waking scheduler
        found acquired
    · exact h.rows_failed timed present step sound keyed ready backed cycling fails waking found
        acquired

end Work

theorem Lagging.pace (h : m.Lagging s store mark begun delay) (settings : m.settings = s.settings)
    {sc next : Scheduler} {ticket : Option Nat} (present : m.scheduler = some sc)
    (step : sc.step s.now m.settings.interval = some (next, ticket))
    (worker : m'.worker = m.worker) (scheduler : m'.scheduler = some next) :
    m'.Lagging s store mark begun delay := by
  obtain ⟨falls, other⟩ := Scheduler.turns step
  rw [settings, ← pause] at falls
  refine ⟨fun w there => h.braced w (worker ▸ there), fun w sc' wake _ there sleeps => ?_,
    fun w name slot there found acquired => ?_⟩
  · rw [scheduler] at there
    cases there
    exact (falls wake sleeps).2.le
  · obtain ⟨e, ⟨recent, live, acknowledged, _⟩, row⟩ :=
      h.rows w name slot (worker ▸ there) found acquired
    refine ⟨e, ⟨recent, live, fun sc' there done => ?_, fun sc' wake there sleeps => ?_⟩, row⟩
    all_goals
      rw [scheduler] at there
      cases there
    · exact absurd done other
    · obtain ⟨done, rfl⟩ := falls wake sleeps
      have lasts := acknowledged sc present done
      push_cast
      omega

/-- Whatever a manager does keeps its rows until the next cycle. -/
theorem Lagging.move (h : m.Lagging s store mark begun delay) (timed : s.Timed mark begun delay)
    (after : begun ≤ s.now) (move : m.Move s store m' b notes) (staged : m.Staged) (modest : m.Modest)
    (settings : m.settings = s.settings) (keyed : store.Keyed)
    (sound : ∀ w, m.worker = some w → w.Sound s)
    (ready : m.worker.isSome = true → store.isReady = true)
    (backed : ∀ w, m.worker = some w → w.Backed s.owner store.held (· < s.clock))
    (mild : ∀ w, m.worker = some w → w.Mild s mark begun delay) :
    m'.Lagging s b mark begun delay := by
  rcases move.work_cases with ⟨k, r, present, step, rfl, rfl, rfl⟩ | aside
  · rw [publishAll_eq]
    exact h.work timed present step (sound k present) keyed (ready (by simp [present]))
      (backed k present) after (mild k present) rfl rfl
  have same := aside.held modest keyed
  cases move.live staged modest with
  | gone none _ => exact lagging_of_none none
  | launch _ worker scheduler _ =>
    refine ⟨fun w there => ?_, fun w sc wake _ there sleeps => ?_, fun w name slot there found => ?_⟩
    · rw [worker] at there
      cases there
      exact Worker.braced_fresh _
    · cases (scheduler sc there).symm.trans sleeps
    · rw [worker] at there
      cases there
      simp [Worker.fresh, Slots.find?] at found
  | @work k r present step worker scheduler queue =>
    exact h.work timed present step (sound k present) keyed (ready (by simp [present]))
      (backed k present) after (mild k present) worker scheduler
  | pace present step worker scheduler queue => exact h.pace settings present step worker scheduler
  | @aside _ _ k aborted present worker scheduler queue =>
    refine ⟨fun w there => ?_, fun w sc wake there there' sleeps => ?_,
      fun w name slot there found acquired => ?_⟩
    all_goals
      rw [worker] at there
      obtain rfl := Option.some.inj there
    · exact (h.braced k present).abort aborted
    · obtain ⟨sc₀, present', pacing⟩ := scheduler sc there'
      exact h.waking k sc₀ wake present present' (pacing ▸ sleeps)
    · obtain ⟨e, ⟨recent, live, acknowledged, sleeping⟩, row⟩ :=
        h.rows k name slot present found acquired
      rw [same]
      refine ⟨e, ⟨recent, live, fun sc there' done => ?_, fun sc wake there' sleeps => ?_⟩, row⟩
      · obtain ⟨sc₀, present', pacing⟩ := scheduler sc there'
        exact acknowledged sc₀ present' (pacing ▸ done)
      · obtain ⟨sc₀, present', pacing⟩ := scheduler sc there'
        exact sleeping sc₀ wake present' (pacing ▸ sleeps)

theorem Lagging.foreign (h : m.Lagging s store mark begun delay)
    (keeps : ∀ name e, s.clock ≤ e → store.held name = some ⟨s.owner, e⟩ →
      b.held name = some ⟨s.owner, e⟩) : m.Lagging s b mark begun delay := by
  refine ⟨h.braced, h.waking, fun w name slot there found acquired => ?_⟩
  obtain ⟨e, lasts, row⟩ := h.rows w name slot there found acquired
  exact ⟨e, lasts, keeps name e lasts.live row⟩

/-- While time passes, the scheduler sleeps or the call has not failed yet. -/
theorem Lagging.tick (h : m.Lagging s store mark begun delay) (timed : s.Timed mark begun delay)
    (rests : m.Resting s store) (staged : m.Staged) (attended : m.Attended)
    (mild : ∀ w, m.worker = some w → w.Mild s mark begun delay)
    (now : s'.now = s.now + 1) (clock : s'.clock = s.clock + 1) (settings : s'.settings = s.settings)
    (owner : s'.owner = s.owner) : m.Lagging s' store mark begun delay := by
  have paused : pause s' = pause s := by rw [pause, settings, ← pause]
  have marked := timed.mark
  have least := timed.least
  have half := timed.pause
  have short := timed.delay
  refine ⟨fun w there => ?_, fun w sc wake there there' sleeps => ?_,
    fun w name slot there found acquired => ?_⟩
  · exact (h.braced w there).tick (mild w there) (rests.worker w there).2 now settings
  · have := h.waking w sc wake there there' sleeps
    rw [paused]
    omega
  · obtain ⟨e, ⟨recent, live, acknowledged, sleeping⟩, row⟩ := h.rows w name slot there found acquired
    rw [owner]
    refine ⟨e, ⟨paused ▸ recent, ?_, fun sc there' done => ?_, fun sc wake there' sleeps => ?_⟩, row⟩
    · rw [clock]
      rcases (mild w there).cases with prompt | ⟨c, cycling, fails⟩
      · obtain ⟨_, sc, wake, there', sleeps, ahead⟩ := rests.sleeping staged attended there prompt
        have lasts := sleeping sc wake there' sleeps
        omega
      · have soon := ((h.braced w there).bears timed cycling fails).1
        omega
    · have still := (rests.scheduler sc there').2
      simp [Scheduler.step, done] at still
    · have lasts := sleeping sc wake there' sleeps
      rw [clock, now]
      push_cast
      omega

end Manager

end Leasehold
