import Leasehold.Proofs.Delivery
import Leasehold.Proofs.Upkeep

/-! # A table that nobody shares

A manager that has a table for itself finds no rows there but its own. What it claims it gets, and a row
goes only when its handle is given up or when it has expired on the manager's own clock. A clock that
never goes back and never runs ahead of time does not get that far between two cycles, wherever it stands
and even where it stops at the end of the range: `Manager.Lasting`. So every lease is granted in the next
cycle and kept: `Manager.Secluded`.
-/

namespace Leasehold

namespace Request

variable {r : Request} {owner name : String} {clock : Int} {held : Holdings}

/-- The names for which a request inserts rows. -/
def claimed : Request → List String
  | .claimAbsent names _ _ => names
  | _ => []

theorem claimed_or_held (there : (r.effect held name).isSome = true) :
    (held name).isSome = true ∨ name ∈ r.claimed := by
  obtain ⟨h, found⟩ := Option.isSome_iff_exists.mp there
  cases r with
  | refreshOwned owner expiration =>
    obtain ⟨old, before, _⟩ := Option.map_eq_some_iff.mp found
    simp [before]
  | claimAbsent names owner expiration =>
    rcases Option.or_eq_some_iff.mp found with old | ⟨_, new⟩
    · simp [old]
    · split at new
      · exact .inr (by assumption)
      · cases new
  | dropSchema => cases found
  | deleteExpired now => simp [(Option.filter_eq_some_iff.mp found).1]
  | deleteOwned n owner => simp [(Option.filter_eq_some_iff.mp found).1]
  | referenceTime | ensureSchema | selectOwned | listAll => exact .inl there

theorem MadeBy.own (made : r.MadeBy owner clock)
    (own : ∀ name h, held name = some h → h.owner = owner) {h : Holding}
    (there : r.effect held name = some h) : h.owner = owner := by
  by_contra other
  exact other (own name h (made.origin other there))

end Request

namespace Worker

variable {w : Worker} {s : Surroundings} {queue : List Command} {store : Backend} {r : WorkerStep}
  {name : String} {slot : Slot}

/-- The name whose row a worker gives up. -/
def leaving? (w : Worker) : Option String :=
  match w.activity with
  | .parting name _ => some name
  | .releasing r => some r.name
  | _ => none

/-- All rows are of this owner, and each belongs to a slot or is being given up. When a cycle asks for
    the owned names, every slot has a row. -/
structure Housed (owner : String) (held : Holdings) (w : Worker) : Prop where
  own : ∀ name h, held name = some h → h.owner = owner
  housed : ∀ name, (held name).isSome = true →
    (w.slots.find? name).isSome = true ∨ w.leaving? = some name
  settled : ∀ c, w.activity = .cycling c → c.stage = .selecting →
    ∀ name, (w.slots.find? name).isSome = true → (held name).isSome = true

theorem housed_fresh {owner : String} {held : Holdings} (empty : ∀ name, held name = none)
    (aborted : Bool) : ({ fresh with aborted } : Worker).Housed owner held := by
  constructor <;> simp [empty, fresh]

theorem Housed.abort {owner : String} {held : Holdings} (h : w.Housed owner held) (aborted : Bool) :
    ({ w with aborted } : Worker).Housed owner held := ⟨h.own, h.housed, h.settled⟩

theorem find?_of_wanted {slots : Slots} (wanted : name ∈ slots.wanted) :
    (slots.find? name).isSome = true := by
  obtain ⟨e, member, rfl⟩ := List.mem_map.mp wanted
  refine (Keyed.lookup_isSome_iff slots e.1).mpr ?_
  exact List.mem_map_of_mem (List.mem_filter.mp member).1

theorem Sound.slot_of_claimed (sound : w.Sound s) (claims : w.Claims s.owner) {call : Call}
    (called : w.call? = some call) (claimed : name ∈ call.request.claimed) :
    (w.slots.find? name).isSome = true := by
  cases activity : w.activity with
  | waiting | draining | parting => simp [call?, activity] at called
  | releasing r =>
    obtain rfl : r.call = call := by simpa [call?, activity] using called
    simp [(sound.releasing r activity).1, Request.claimed] at claimed
  | cycling c =>
    obtain rfl : c.call = call := by simpa [call?, activity] using called
    obtain ⟨start, _, _, asks⟩ := (sound.cycling c activity).begun
    cases stage : c.stage with
    | claiming =>
      rw [claims c activity stage] at claimed
      exact find?_of_wanted claimed
    | collecting | refreshing | selecting | purging =>
      simp only [Cycle.Asks, stage] at asks
      simp [asks, Request.claimed] at claimed

/-- A slot goes only when its row is to be given up. -/
theorem Move.keeps_slot (move : w.Move s queue store r)
    (there : (w.slots.find? name).isSome = true) :
    (r.worker.slots.find? name).isSome = true ∨ r.worker.leaving? = some name := by
  have given : ((w.giveUp s).1.slots.find? name).isSome = true := by
    cases due : w.mustGiveUp s with
    | true =>
      rw [giveUp_of_due due]
      change ((w.slots.assign fun _ => false).find? name).isSome = true
      rw [Slots.find?_assign, Option.isSome_map]
      exact there
    | false =>
      rw [giveUp_of_safe due]
      exact there
  cases move with
  | @take c queue store b listening =>
    cases c with
    | register other id =>
      left
      change ((w.slots.insert other ⟨id, false⟩).find? name).isSome = true
      by_cases same : name = other
      · rw [same, Slots.find?_insert_self]
        rfl
      · rw [Slots.find?_insert_of_ne _ _ same]
        exact there
    | release other id =>
      simp only [apply, release]
      split
      · exact .inl there
      · split
        · by_cases same : name = other
          · exact .inr (same ▸ rfl)
          · left
            change ((w.slots.erase other).find? name).isSome = true
            rw [Slots.find?_erase_of_ne _ same]
            exact there
        · exact .inl there
    | maintain ticket => exact .inl there
  | beginCycle | beginRelease | endRelease => exact .inl there
  | abandonRelease | failCycle | overrun => exact .inl given
  | @resume queue store c reply cycling due answered =>
    left
    rcases w.resume_eq s c reply with ⟨_, activity, eq⟩ | ⟨_, activity, eq⟩
    · rw [eq]
      exact there
    · rw [eq]
      change ((w.slots.assign reply.nameList.contains).find? name).isSome = true
      rw [Slots.find?_assign, Option.isSome_map]
      exact there

/-- With a store that answers at once, the row that is being given up is gone after that. -/
theorem Move.leaves (move : w.Move s queue store r) (sound : w.Sound s) (keyed : store.Keyed)
    (ready : store.isReady = true) (prompt : ∀ call, w.call? = some call → call.Prompt s.now)
    (own : ∀ name h, store.held name = some h → h.owner = s.owner)
    (leaving : w.leaving? = some name) :
    r.worker.leaving? = some name ∨ r.store.held name = none := by
  cases move with
  | @take c queue store b listening =>
    cases activity : w.activity <;> simp [batch?, leaving?, activity] at listening leaving
  | beginCycle draining => simp [leaving?, draining] at leaving
  | @beginRelease queue store name' b parting =>
    left
    simpa [leaving?, parting, Worker.beginRelease] using leaving
  | @endRelease queue store r releasing due =>
    right
    obtain rfl : r.name = name := by simpa [leaving?, releasing] using leaving
    have prompt := prompt r.call (by simp [call?, releasing])
    obtain ⟨reply, answered⟩ : ∃ reply, (r.call.finish .worker s.trueTime store).1 = .ok reply := by
      cases result : (r.call.finish .worker s.trueTime store).1 with
      | ok reply => exact ⟨reply, rfl⟩
      | error e => exact absurd result (prompt.not_failed ready _ _ e)
    obtain ⟨performed, store_eq, _⟩ := Call.finish_ok answered
    rw [store_eq, Backend.held_perform keyed performed, (sound.releasing r releasing).1]
    simp only [Request.effect, Option.filter_eq_none_iff]
    intro h there
    simp [own _ h there]
  | abandonRelease releasing pending late =>
    exact absurd pending (prompt _ (by simp [call?, releasing])).not_pending
  | resume cycling | failCycle cycling | overrun cycling => simp [leaving?, cycling] at leaving

/-- A cycle asks for the owned names after it has seen to it that every slot has a row. -/
theorem Move.settles (move : w.Move s queue store r) (keyed : store.Keyed)
    (claims : w.Claims s.owner) (covered : r.worker.Covered s.owner r.store.held) {c : Cycle}
    (cycling : r.worker.activity = .cycling c) (selecting : c.stage = .selecting)
    (found : r.worker.slots.find? name = some slot) : (r.store.held name).isSome = true := by
  cases acquired : slot.acquired with
  | true =>
    obtain ⟨e, row⟩ := covered name slot found acquired
    simp [row]
  | false =>
    cases move with
    | @take c' _ _ b listening =>
      rcases w.apply_activity c' b with ⟨eq, _⟩ | ⟨⟨_, eq, _⟩, _⟩ | ⟨_, _, eq⟩
      · exact absurd (eq.symm.trans cycling) (afterCommand_ne_cycling b c)
      · cases eq.symm.trans cycling
      · cases eq.symm.trans cycling
    | beginCycle draining =>
      cases cycling
      cases selecting
    | beginRelease parting => cases cycling
    | @endRelease _ _ r releasing due => exact absurd cycling (afterCommand_ne_cycling r.batch c)
    | @abandonRelease _ _ r releasing pending late =>
      exact absurd cycling (afterCommand_ne_cycling r.batch c)
    | @resume _ _ c' reply before due answered =>
      have early : c'.stage.index ≤ 2 := by
        cases stage : c'.stage with
        | collecting | refreshing | claiming => simp [Stage.index]
        | selecting =>
          simp only [Worker.resume, stage] at cycling
          exact absurd selecting (purge_stage cycling).2
        | purging =>
          simp only [Worker.resume, stage] at cycling
          exact absurd selecting (purge_stage cycling).2
      have other : c'.stage ≠ .selecting := by
        intro stage
        simp [stage, Stage.index] at early
      obtain ⟨activity, eq⟩ := ((w.resume_eq s c' reply).resolve_right fun h => other h.1).2
      have found' : w.slots.find? name = some slot := by
        rw [eq] at found
        exact found
      rcases claims_of_answer claims keyed before early answered found' acquired with
        (⟨b, carried, _⟩ | ⟨c₀, cycling₀, early₀⟩) | row
      · have next : (w.resume s c' reply).1.activity = .cycling c := cycling
        simp [carried?, next] at carried
      · cases cycling.symm.trans cycling₀
        simp [selecting, Stage.index] at early₀
      · exact row
    | failCycle before due failed => cases cycling
    | overrun before pending late => cases cycling

theorem Housed.move (h : w.Housed s.owner store.held) (move : w.Move s queue store r)
    (sound : w.Sound s) (keyed : store.Keyed) (ready : store.isReady = true)
    (prompt : ∀ call, w.call? = some call → call.Prompt s.now) (claims : w.Claims s.owner)
    (covered : r.worker.Covered s.owner r.store.held) : r.worker.Housed s.owner r.store.held where
  own name row there := by
    rcases move.held_cases keyed with same | ⟨call, called, done⟩
    · rw [same] at there
      exact h.own name row there
    · rw [done] at there
      exact (sound.madeBy called).own h.own there
  housed name there := by
    have before : (w.slots.find? name).isSome = true ∨ w.leaving? = some name := by
      rcases move.held_cases keyed with same | ⟨call, called, done⟩
      · rw [same] at there
        exact h.housed name there
      · rw [done] at there
        rcases Request.claimed_or_held there with old | claimed
        · exact h.housed name old
        · exact .inl (sound.slot_of_claimed claims called claimed)
    rcases before with slot | leaving
    · exact move.keeps_slot slot
    · rcases move.leaves sound keyed ready prompt h.own leaving with still | gone
      · exact .inr still
      · simp [gone] at there
  settled c cycling selecting name there := by
    obtain ⟨slot, found⟩ := Option.isSome_iff_exists.mp there
    exact move.settles keyed claims covered cycling selecting found

theorem due_of_early {c : Cycle} (early : c.stage.index ≤ 2) (reply : Reply) :
    (w.resume s c reply).1.Due 3 := by
  cases stage : c.stage with
  | collecting =>
    simp only [Worker.resume, stage]
    exact .inr ⟨_, rfl, by simp [Stage.index]⟩
  | refreshing =>
    simp only [Worker.resume, stage]
    split
    · exact .inr ⟨_, rfl, by simp [Stage.index]⟩
    · exact .inr ⟨_, rfl, by simp [Stage.index]⟩
  | claiming =>
    simp only [Worker.resume, stage]
    exact .inr ⟨_, rfl, by simp [Stage.index]⟩
  | selecting => simp [stage, Stage.index] at early
  | purging => simp [stage, Stage.index] at early

theorem Housed.granted (h : w.Housed s.owner store.held) (sound : w.Sound s) (keyed : store.Keyed)
    {c : Cycle} {reply : Reply} (cycling : w.activity = .cycling c) (selecting : c.stage = .selecting)
    (answered : (c.call.finish .worker s.trueTime store).1 = .ok reply)
    (found : (w.resume s c reply).1.slots.find? name = some slot) : slot.acquired = true := by
  obtain ⟨start, _, _, asks⟩ := (sound.cycling c cycling).begun
  simp only [Cycle.Asks, selecting] at asks
  have performed := (Call.finish_ok answered).1
  rw [asks] at performed
  have known := ((w.resume_eq s c reply).resolve_left fun other => other.1 selecting).2
  obtain ⟨activity, eq⟩ := known
  rw [eq] at found
  change (w.slots.assign reply.nameList.contains).find? name = some slot at found
  rw [Slots.find?_assign] at found
  obtain ⟨old, there, rfl⟩ := Option.map_eq_some_iff.mp found
  obtain ⟨row, held⟩ :=
    Option.isSome_iff_exists.mp (h.settled c cycling selecting name (by simp [there]))
  have own : row.owner = s.owner := h.own name row held
  change reply.nameList.contains name = true
  rw [List.contains_iff_mem, Backend.mem_nameList_selectOwned keyed performed]
  exact ⟨row.expiration, own ▸ held⟩

end Worker

namespace Scheduler

variable {sc next : Scheduler} {now pause : Nat}

/-- For how long a scheduler requests no cycle yet. -/
def reach (sc : Scheduler) (now pause : Nat) : Nat :=
  match sc.pacing with
  | .acknowledged => pause
  | .sleeping wake => wake - now
  | _ => 0

theorem reach_le (waking : ∀ wake, sc.pacing = .sleeping wake → wake ≤ now + pause) :
    sc.reach now pause ≤ pause := by
  unfold reach
  split
  · exact le_rfl
  · rename_i wake sleeps
    have := waking wake sleeps
    omega
  · exact Nat.zero_le _

theorem reach_step {interval : Duration} {ticket : Option Nat}
    (step : sc.step now interval = some (next, ticket)) :
    next.reach now interval.ceilMillis ≤ sc.reach now interval.ceilMillis := by
  obtain ⟨falls, other⟩ := Scheduler.turns step
  cases pacing : next.pacing with
  | sleeping wake =>
    obtain ⟨done, rfl⟩ := falls wake pacing
    simp [reach, pacing, done]
  | acknowledged => exact absurd pacing other
  | requesting => simp [reach, pacing]
  | awaiting ticket => simp [reach, pacing]

end Scheduler

/-- What a manager sees whose calls are answered at once, and whose leases last for a pause. -/
structure Surroundings.Apart (s : Surroundings) : Prop where
  link : s.link = .clear
  clock : Reading.InRange s.clock
  lease : (Manager.pause s : Int) ≤ s.settings.leaseMillis

namespace Manager

variable {m m' : Manager} {s s' : Surroundings} {store b : Backend} {notes : List Note}

/-! ## What is confirmed -/

def reach (s : Surroundings) (m : Manager) : Nat :=
  match m.scheduler with
  | none => 0
  | some sc => sc.reach s.now (pause s)

/-- What is confirmed lasts until the next cycle, or as long as the clock can show. -/
structure Lasting (s : Surroundings) (m : Manager) : Prop where
  cycling : ∀ w c, m.worker = some w → w.activity = .cycling c →
    c.expiration = Reading.add s.clock s.settings.leaseMillis
  waking : ∀ w sc wake, m.worker = some w → m.scheduler = some sc → sc.pacing = .sleeping wake →
    wake ≤ s.now + pause s
  confirmed : ∀ w point, m.worker = some w → w.confirmedUntil = some point →
    Reading.clamp (s.clock + m.reach s) ≤ point

theorem lasting_of_none (none : m.worker = none) : m.Lasting s := by
  constructor <;> simp [none]

theorem Lasting.reach_le (h : m.Lasting s) {k : Worker} (present : m.worker = some k) :
    m.reach s ≤ pause s := by
  unfold reach
  split
  · exact Nat.zero_le _
  · rename_i sc there
    exact Scheduler.reach_le fun wake sleeps => h.waking k sc wake present there sleeps

theorem Lasting.ahead (h : m.Lasting s) (apart : s.Apart) {k : Worker} (present : m.worker = some k)
    {point : Int} (known : k.confirmedUntil = some point) : s.clock ≤ point := by
  have lasts := h.confirmed k point present known
  have later : Reading.clamp s.clock ≤ Reading.clamp (s.clock + m.reach s) :=
    Reading.clamp_mono (by omega)
  rw [Reading.clamp_eq_self apart.clock] at later
  exact le_trans later lasts

theorem Lasting.covered (h : m.Lasting s) (apart : s.Apart) {k : Worker} {held : Holdings}
    (present : m.worker = some k) (backed : k.Backed s.owner held (· < s.clock)) :
    k.Covered s.owner held := by
  intro name slot found acquired
  obtain ⟨point, known, ⟨e, _, row⟩ | past⟩ := backed.backed name slot found acquired
  · exact ⟨e, row⟩
  · have ahead := h.ahead apart present known
    omega

theorem Lasting.work (h : m.Lasting s) (apart : s.Apart) {k : Worker} {r : WorkerStep}
    (present : m.worker = some k) (step : k.Move s m.queue store r) (sound : k.Sound s)
    (prompt : ∀ call, k.call? = some call → call.Prompt s.now) (ready : store.isReady = true)
    (worker : m'.worker = some r.worker)
    (scheduler : m'.scheduler = m.scheduler.map (r.notes.foldl Scheduler.hear)) : m'.Lasting s := by
  have waking (sc : Scheduler) (wake : Nat) (there : m'.scheduler = some sc)
      (sleeps : sc.pacing = .sleeping wake) : wake ≤ s.now + pause s := by
    rw [scheduler] at there
    obtain ⟨sc₀, before, rfl⟩ := Option.map_eq_some_iff.mp there
    rcases sc₀.hear_cases r.notes with ⟨unheard, _⟩ | ⟨_, heard⟩
    · exact h.waking k sc₀ wake present before (unheard ▸ sleeps)
    · cases heard.symm.trans sleeps
  have lease := apart.lease
  refine ⟨fun w c there cycling => ?_, fun w sc wake _ => waking sc wake,
    fun w point there known => ?_⟩
  all_goals
    rw [worker] at there
    obtain rfl := Option.some.inj there
  · rcases step.cycle_cases cycling with ⟨tickets, new⟩ | ⟨c₀, stage, call, before, _, rfl⟩
    · rw [new] at cycling
      cases cycling
      rfl
    · exact h.cycling k c₀ present before
  by_cases new : r.worker.confirmedUntil = some (Reading.add s.clock s.settings.leaseMillis)
  · have short : m'.reach s ≤ pause s := by
      unfold reach
      split
      · exact Nat.zero_le _
      · rename_i sc there
        exact Scheduler.reach_le fun wake => waking sc wake there
    obtain rfl := Option.some.inj (new.symm.trans known)
    exact Reading.clamp_mono (by omega)
  · -- No cycle has ended, so the scheduler has heard nothing.
    have unheard : m'.scheduler = m.scheduler := by
      rw [scheduler]
      cases there : m.scheduler with
      | none => rfl
      | some sc =>
        rcases sc.hear_cases r.notes with ⟨unheard, _⟩ | ⟨⟨t, _, told⟩, _⟩
        · exact congrArg some unheard
        · obtain ⟨c, cycling, confirmed⟩ := step.acknowledged sound prompt ready told
          exact absurd (h.cycling k c present cycling ▸ confirmed) new
    have same : r.worker.confirmedUntil = k.confirmedUntil := by
      refine step.confirmed_cases.resolve_right ?_
      rintro ⟨c, cycling, _, confirmed⟩
      exact new (h.cycling k c present cycling ▸ confirmed)
    rw [reach, unheard]
    exact h.confirmed k point present (same ▸ known)

theorem Lasting.sooner (h : m.Lasting s) {k : Worker} {aborted : Bool} (present : m.worker = some k)
    (worker : m'.worker = some { k with aborted }) (sooner : m'.reach s ≤ m.reach s)
    (waking : ∀ sc wake, m'.scheduler = some sc → sc.pacing = .sleeping wake →
      wake ≤ s.now + pause s) : m'.Lasting s := by
  refine ⟨fun w c there cycling => ?_, fun w sc wake _ => waking sc wake,
    fun w point there known => ?_⟩
  all_goals
    rw [worker] at there
    obtain rfl := Option.some.inj there
  · exact h.cycling k c present cycling
  · exact le_trans (Reading.clamp_mono (by omega)) (h.confirmed k point present known)

/-- Whatever a manager does, what it has confirmed lasts until its next cycle. -/
theorem Lasting.move (h : m.Lasting s) (apart : s.Apart) (served : m.Served s store)
    (settings : m.settings = s.settings) (move : m.Move s store m' b notes) : m'.Lasting s := by
  cases move.live served.staged served.modest with
  | gone none _ => exact lasting_of_none none
  | launch _ worker scheduler _ =>
    refine ⟨fun w c there cycling => ?_, fun w sc wake _ there sleeps => ?_,
      fun w point there known => ?_⟩
    · cases worker.symm.trans there
      cases cycling
    · cases (scheduler sc there).symm.trans sleeps
    · cases worker.symm.trans there
      cases known
  | @work k r present step worker scheduler queue =>
    exact h.work apart present step (served.sound k present) (served.prompt k · present)
      (served.ready (by simp [present])) worker scheduler
  | @pace sc next ticket _ present step worker scheduler queue =>
    cases there : m.worker with
    | none => exact lasting_of_none (worker.trans there)
    | some k =>
      have sooner := Scheduler.reach_step step
      rw [settings, ← pause] at sooner
      refine h.sooner there (worker.trans there) ?_ fun sc' wake there' sleeps => ?_
      · simpa only [reach, scheduler, present] using sooner
      · cases scheduler.symm.trans there'
        obtain ⟨_, rfl⟩ := (Scheduler.turns step).1 wake sleeps
        rw [settings, ← pause]
  | @aside _ _ k aborted present worker scheduler queue =>
    refine h.sooner present worker ?_ fun sc wake there sleeps => ?_
    · unfold reach
      cases there : m'.scheduler with
      | none => exact Nat.zero_le _
      | some sc =>
        obtain ⟨sc₀, present', pacing⟩ := scheduler sc there
        simp [present', Scheduler.reach, pacing]
    · obtain ⟨sc₀, present', pacing⟩ := scheduler sc there
      exact h.waking k sc₀ wake present present' (pacing ▸ sleeps)

theorem Lasting.tick (h : m.Lasting s) (rests : m.Resting s store) (served : m.Served s store)
    (now : s'.now = s.now + 1) (clock : s'.clock ≤ s.clock + 1) (settings : s'.settings = s.settings) :
    m.Lasting s' := by
  have paused : pause s' = pause s := by rw [pause, settings, ← pause]
  have asleep {w : Worker} (there : m.worker = some w) :=
    rests.sleeping served.staged served.attended there (served.prompt w · there)
  refine ⟨fun w c there cycling => ?_, fun w sc wake there there' sleeps => ?_,
    fun w point there known => ?_⟩
  · cases (asleep there).1.symm.trans cycling
  · have soon := h.waking w sc wake there there' sleeps
    omega
  · obtain ⟨_, sc, wake, there', sleeps, ahead⟩ := asleep there
    have lasts := h.confirmed w point there known
    simp only [reach, Scheduler.reach, there', sleeps] at lasts ⊢
    exact le_trans (Reading.clamp_mono (by omega)) lasts

/-! ## What is granted -/

theorem Shift.early_of_arrival (shift : m.Shift s store m' notes) (new : m.worker = none)
    (there : m'.worker.isSome = true) : m.Early := by
  cases shift with
  | create name =>
    obtain ⟨registry, handles, more, eq⟩ := m.createHandle_eq name
    simp [eq, new] at there
  | release id =>
    obtain ⟨registry, handles, more, eq⟩ := m.releaseHandle_eq id
    simp [eq, new] at there
  | work present step => cases new.symm.trans present
  | request opened running => simp [new] at there
  | pace running => simp [new] at there
  | stage staging =>
    cases staging with
    | launch early opened keeps idle won begun => exact early
    | keep keeps idle lost stage => simp [keeps.isSome_worker, new] at there
  | reap stopped idle lost closed =>
    simp [(keeps_dropQueue ({ m with worker := none } : Manager)).isSome_worker] at there

/-- A manager that has its table for itself, and whose calls are answered at once: nothing is in the
    table before the manager has started, and a lease that is not held is about to be granted. -/
structure Secluded (s : Surroundings) (store : Backend) (m : Manager) : Prop where
  staged : m.Staged
  modest : m.Modest
  attended : m.Attended
  kicks : m.Kicks
  asks : m.Asks s
  sound : ∀ w, m.worker = some w → w.Sound s
  prompt : ∀ w call, m.worker = some w → w.call? = some call → call.Prompt s.now
  listed : ∀ l ∈ m.listings, ∀ call, l.call = some call → call.Prompt s.now
  table : store.isReady = true
  keyed : store.Keyed
  vacant : m.Early → ∀ name, store.held name = none
  backed : ∀ w, m.worker = some w → w.Backed s.owner store.held (· < s.clock)
  housed : ∀ w, m.worker = some w → w.Housed s.owner store.held
  lasting : m.Lasting s
  granted : m.lifecycle = .running → ∀ w name slot, m.worker = some w →
    w.slots.find? name = some slot → slot.acquired = false → m.Expects 3

theorem secluded_fresh (owner : String) (settings : Settings) :
    (fresh owner settings).Secluded s .freshMemory where
  staged := staged_fresh owner settings
  modest := modest_fresh owner settings
  attended := attended_of_none rfl
  kicks := kicks_fresh owner settings
  asks w present := by cases present
  sound w present := by cases present
  prompt w call present := by cases present
  listed l member := by cases member
  table := rfl
  keyed := MemoryStore.keyed_empty
  vacant _ name := rfl
  backed w present := by cases present
  housed w present := by cases present
  lasting := lasting_of_none rfl
  granted running := by cases running

theorem Secluded.served (h : m.Secluded s store) : m.Served s store where
  staged := h.staged
  modest := h.modest
  attended := h.attended
  sound := h.sound
  prompt := h.prompt
  ready _ := h.table

theorem Secluded.covered (h : m.Secluded s store) (apart : s.Apart) {k : Worker}
    (present : m.worker = some k) : k.Covered s.owner store.held :=
  h.lasting.covered apart present (h.backed k present)

section Moves

variable (h : m.Secluded s store) (moves : m.Move s store m' b notes)

include h moves

theorem Secluded.stays_vacant (early' : m'.Early) (name : String) : b.held name = none := by
  have early : m.Early := by
    by_contra begun
    exact (moves.shift h.staged).settled begun early'
  have none := h.staged.worker_none early
  rcases moves.work_cases with ⟨w, r, present, _⟩ | aside
  · cases none.symm.trans present
  · rw [aside.held h.modest h.keyed]
    exact h.vacant early name

theorem Secluded.stays_covered (apart : s.Apart) (settings : m.settings = s.settings) {k : Worker}
    (present : m'.worker = some k) : k.Covered s.owner b.held :=
  (h.lasting.move apart h.served settings moves).covered apart present
    (moves.backed h.modest h.sound h.keyed (fun _ => id) h.backed present)

theorem Secluded.stays_housed (apart : s.Apart) (settings : m.settings = s.settings) {k : Worker}
    (present' : m'.worker = some k) : k.Housed s.owner b.held := by
  have worked {w : Worker} {r : WorkerStep} (present : m.worker = some w)
      (step : w.Move s m.queue store r) (covered : r.worker.Covered s.owner r.store.held) :
      r.worker.Housed s.owner r.store.held :=
    (h.housed w present).move step (h.sound w present) h.keyed h.table (h.prompt w · present)
      (h.asks w present).1 covered
  have covered := h.stays_covered moves apart settings present'
  rcases moves.work_cases with ⟨w, r, present, step, rfl, rfl, rfl⟩ | aside
  · rw [publishAll_eq] at present'
    cases present'
    exact worked present step covered
  have same := aside.held h.modest h.keyed
  cases moves.live h.staged h.modest with
  | gone none _ => cases none.symm.trans present'
  | launch new worker _ _ =>
    cases worker.symm.trans present'
    have early := (moves.shift h.staged).early_of_arrival new (by simp [worker])
    exact Worker.housed_fresh (fun name => same ▸ h.vacant early name) _
  | work present step worker _ _ =>
    cases worker.symm.trans present'
    exact worked present step covered
  | pace present step worker _ _ => exact h.housed k (worker ▸ present')
  | aside present worker _ _ =>
    cases worker.symm.trans present'
    rw [same]
    exact (h.housed _ present).abort _

theorem Secluded.stays_granted (apart : s.Apart) (running' : m'.lifecycle = .running) {k' : Worker}
    {name : String} {slot : Slot} (present' : m'.worker = some k')
    (found : k'.slots.find? name = some slot) (free : slot.acquired = false) : m'.Expects 3 := by
  rcases moves.unacquired h.served h.kicks h.keyed (fun k => h.covered apart) present' found free with
    asked | ⟨k, old, present, there, unheld⟩
  · exact .inl asked
  have running := running_of_move h.staged moves running' present
  rcases (h.granted running k name old present there unheld).move h.served moves running' with
    expects | ⟨w, c, reply, present₀, cycling, early, answered, worker, _⟩
  · exact expects
  by_cases selecting : c.stage = .selecting
  · cases worker.symm.trans present'
    have held := (h.housed w present₀).granted (h.sound w present₀) h.keyed cycling selecting
      answered found
    cases free.symm.trans held
  · have earlier : c.stage.index ≤ 2 := by
      cases stage : c.stage with
      | selecting => exact absurd stage selecting
      | purging => simp [stage, Stage.index] at early
      | collecting | refreshing | claiming => simp [Stage.index]
    exact .inr (.inl ⟨_, worker, Worker.due_of_early earlier reply⟩)

theorem Secluded.move (apart : s.Apart) (settings : m.settings = s.settings) : m'.Secluded s b where
  staged := h.staged.move moves
  modest := h.modest.move moves
  attended := h.attended.move h.staged h.modest moves
  kicks := h.kicks.move h.staged moves
  asks := h.asks.move moves
  sound _ := moves.sound h.sound
  prompt _ _ := moves.prompt h.staged h.modest apart.link h.prompt
  listed l member call called := by
    rcases moves.asking.listings l member with old | none | placed
    · exact h.listed l old call called
    · cases none.symm.trans called
    · cases placed.symm.trans called
      rw [apart.link]
      exact Call.prompt_place s.now .listAll
  table := moves.isReady h.modest h.sound h.table
  keyed := moves.keyed h.keyed
  vacant := h.stays_vacant moves
  backed _ := moves.backed h.modest h.sound h.keyed (fun _ => id) h.backed
  housed _ := h.stays_housed moves apart settings
  lasting := h.lasting.move apart h.served settings moves
  granted running' _ _ _ := h.stays_granted moves apart running'

end Moves

/-- A millisecond in which nothing happens changes nothing else. -/
theorem Secluded.tick (h : m.Secluded s store) (rests : m.Resting s store)
    (now : s'.now = s.now + 1) (forward : s.clock ≤ s'.clock) (slow : s'.clock ≤ s.clock + 1)
    (owner : s'.owner = s.owner) (settings : s'.settings = s.settings) : m.Secluded s' store where
  staged := h.staged
  modest := h.modest
  attended := h.attended
  kicks := h.kicks
  asks w present := by
    obtain ⟨waiting, _⟩ := rests.sleeping h.staged h.attended present (h.prompt w · present)
    constructor
    · intro c cycling
      cases waiting.symm.trans cycling
    · intro c cycling
      cases waiting.symm.trans cycling
  sound w present := (h.sound w present).later owner settings forward
  prompt w call present called := (h.prompt w call present called).later (by omega)
  listed l member call called := (h.listed l member call called).later (by omega)
  table := h.table
  keyed := h.keyed
  vacant := h.vacant
  backed w present := by
    rw [owner]
    exact (h.backed w present).later fun point past => lt_of_lt_of_le past forward
  housed w present := by
    rw [owner]
    exact h.housed w present
  lasting := h.lasting.tick rests h.served now slow settings
  granted running w name slot present found free :=
    absurd (h.granted running w name slot present found free) (rests.not_expects h.served running)

theorem Secluded.lossless (h : m.Secluded s store) (apart : s.Apart) (balanced : m.Balanced)
    (truthful : m.Truthful) (moves : m.Move s store m' b notes) : Worker.Lossless notes := by
  rcases moves.work_cases with ⟨k, r, present, step, _, _, rfl⟩ | aside
  · exact (step.retains (h.sound k present) (h.prompt k · present) h.table h.keyed
      (h.covered apart present) (truthful.slots_keyed present) (balanced.admits_slots present)).2
  · exact Worker.lossless_of_quiet aside.quiet

section Rest

variable (h : m.Secluded s store) (apart : s.Apart) (rests : m.Resting s store)
  (running : m.lifecycle = .running) (balanced : m.Balanced)

include h rests running balanced

theorem Secluded.all_acquired (truthful : m.Truthful) {k : Handle} (member : k ∈ m.handles)
    (held : k.released = false) : k.isAcquired = true := by
  obtain ⟨w, present⟩ := Option.isSome_iff_exists.mp (h.staged.running running).1
  obtain ⟨slot, found, flag⟩ :=
    balanced.slot_of_handle truthful present (rests.queue_nil h.served present) member held
  rw [← flag]
  by_contra free
  have expects := h.granted running w k.name slot present found (by simpa using free)
  exact rests.not_expects h.served running expects

include apart

theorem Secluded.rows_iff (truthful : m.Truthful) (name owner : String) :
    (∃ e, store.held name = some ⟨owner, e⟩)
      ↔ owner = s.owner ∧ ∃ k ∈ m.handles, k.name = name ∧ k.released = false := by
  obtain ⟨w, present⟩ := Option.isSome_iff_exists.mp (h.staged.running running).1
  have queue := rests.queue_nil h.served present
  have waiting := (rests.sleeping h.staged h.attended present (h.prompt w · present)).1
  constructor
  · rintro ⟨e, row⟩
    refine ⟨(h.housed w present).own name _ row, balanced.handle_of_slot present queue ?_⟩
    refine ((h.housed w present).housed name (by simp [row])).resolve_right fun leaving => ?_
    simp [Worker.leaving?, waiting] at leaving
  · rintro ⟨rfl, k, member, rfl, held⟩
    obtain ⟨slot, found, flag⟩ := balanced.slot_of_handle truthful present queue member held
    have acquired := h.all_acquired rests running balanced truthful member held
    exact h.covered apart present k.name slot found (flag.trans acquired)

end Rest

end Manager

end Leasehold
