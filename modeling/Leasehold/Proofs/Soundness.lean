import Leasehold.Proofs.Calls

/-! # What a worker asks for

A worker changes rows of its own only, and rows whose time is over on its clock. `Worker.Sound` says so
for the call that it waits for, together with what a cycle knows of its beginning and what the worker
knows of its slots. It holds whatever becomes of the calls.
-/

namespace Leasehold

/-- The ticket that comes with a command. -/
def Command.ticket? : Command → Option Nat
  | .maintain ticket => ticket
  | _ => none

/-- Requests that a manager makes, by its owner id and what its clock shows. -/
def Request.MadeBy (owner : String) (clock : Int) : Request → Prop
  | .deleteExpired now => now ≤ clock
  | .refreshOwned o _ | .claimAbsent _ o _ | .selectOwned o | .deleteOwned _ o => o = owner
  | .dropSchema => False
  | .referenceTime | .ensureSchema | .listAll => True

/-- Requests of anybody but the owner, who may collect rows and look at them, but writes and deletes
    none in the owner's name. -/
def Request.Foreign (mine : String) : Request → Prop
  | .refreshOwned o _ | .claimAbsent _ o _ | .deleteOwned _ o => o ≠ mine
  | .dropSchema => False
  | .deleteExpired _ | .selectOwned _ | .referenceTime | .ensureSchema | .listAll => True

namespace Request.Foreign

variable {mine name : String} {r : Request} {held : Holdings} {e : Int}

theorem keeps (foreign : r.Foreign mine) (there : held name = some ⟨mine, e⟩) :
    r.effect held name = some ⟨mine, e⟩ ∨ ∃ now, r = .deleteExpired now ∧ e < now := by
  cases r with
  | dropSchema => exact foreign.elim
  | deleteExpired now =>
    by_cases live : now ≤ e
    · simp [effect, there, live]
    · exact .inr ⟨now, rfl, not_le.mp live⟩
  | refreshOwned o expiration => simp [effect, there, Ne.symm foreign]
  | claimAbsent names o expiration => simp [effect, there]
  | deleteOwned n o => simp [effect, there, Ne.symm foreign]
  | referenceTime | ensureSchema | selectOwned | listAll => exact .inl there

theorem origin (foreign : r.Foreign mine) (there : r.effect held name = some ⟨mine, e⟩) :
    held name = some ⟨mine, e⟩ := by
  cases r with
  | dropSchema => exact foreign.elim
  | deleteExpired now => exact (Option.filter_eq_some_iff.mp there).1
  | refreshOwned o expiration =>
    obtain ⟨h, found, eq⟩ := Option.map_eq_some_iff.mp there
    split at eq
    · cases eq
      exact absurd rfl foreign
    · exact eq ▸ found
  | claimAbsent names o expiration =>
    rcases Option.or_eq_some_iff.mp there with old | ⟨_, new⟩
    · exact old
    · split at new
      · cases new
        exact absurd rfl foreign
      · cases new
  | deleteOwned n o => exact (Option.filter_eq_some_iff.mp there).1
  | referenceTime | ensureSchema | selectOwned | listAll => exact there

end Request.Foreign

namespace Request.MadeBy

variable {owner mine : String} {clock : Int} {r : Request} {held : Holdings} {name : String} {e : Int}

theorem foreign (made : r.MadeBy owner clock) (other : mine ≠ owner) : r.Foreign mine := by
  cases r with
  | dropSchema => exact made
  | refreshOwned | claimAbsent | deleteOwned =>
    cases made
    exact other.symm
  | deleteExpired | selectOwned | referenceTime | ensureSchema | listAll => trivial

theorem keeps (made : r.MadeBy owner clock) (other : mine ≠ owner) (there : held name = some ⟨mine, e⟩) :
    r.effect held name = some ⟨mine, e⟩ ∨ e < clock := by
  apply ((made.foreign other).keeps there).imp_right
  rintro ⟨now, rfl, spent⟩
  exact lt_of_lt_of_le spent made

theorem origin (made : r.MadeBy owner clock) (other : mine ≠ owner)
    (there : r.effect held name = some ⟨mine, e⟩) : held name = some ⟨mine, e⟩ :=
  (made.foreign other).origin there

end Request.MadeBy

/-- What a cycle that began when the clock showed `start` asks at each stage. -/
def Cycle.Asks (c : Cycle) (owner : String) (start : Int) : Prop :=
  match c.stage with
  | .collecting => c.call.request = .deleteExpired start
  | .refreshing => c.call.request = .refreshOwned owner c.expiration
  | .claiming => ∃ names, c.call.request = .claimAbsent names owner c.expiration
  | .selecting => c.call.request = .selectOwned owner
  | .purging name _ => c.call.request = .deleteOwned name owner

namespace Worker

variable {w : Worker} {s s' : Surroundings} {queue : List Command} {store : Backend}

/-- What is known while a cycle waits for the store. -/
structure Cycling (s : Surroundings) (w : Worker) (c : Cycle) : Prop where
  begun : ∃ start ≤ s.clock,
    c.expiration = Reading.add start s.settings.leaseMillis ∧ c.Asks s.owner start
  confirmed : ∀ point, w.confirmedUntil = some point → point ≤ c.expiration
  purging : ∀ name rest, c.stage = .purging name rest →
    (∀ n ∈ name :: rest, w.slots.find? n = none) ∧ w.confirmedUntil = some c.expiration

/-- What a worker asks for, and what it may rely on. -/
structure Sound (s : Surroundings) (w : Worker) : Prop where
  parting : ∀ name b, w.activity = .parting name b → w.slots.find? name = none
  releasing : ∀ r, w.activity = .releasing r →
    r.call.request = .deleteOwned r.name s.owner ∧ w.slots.find? r.name = none
  cycling : ∀ c, w.activity = .cycling c → w.Cycling s c
  confirmed : ∀ point, w.confirmedUntil = some point →
    point ≤ Reading.add s.clock s.settings.leaseMillis
  held : ∀ name slot, w.slots.find? name = some slot → slot.acquired = true →
    ∃ point, w.confirmedUntil = some point

theorem sound_fresh (s : Surroundings) (aborted : Bool) :
    ({ fresh with aborted } : Worker).Sound s := by
  constructor <;> simp [fresh, Slots.find?]

theorem Sound.abort (h : w.Sound s) (aborted : Bool) : ({ w with aborted } : Worker).Sound s :=
  ⟨h.parting, h.releasing, fun c cycling =>
    ⟨(h.cycling c cycling).begun, (h.cycling c cycling).confirmed, (h.cycling c cycling).purging⟩,
    h.confirmed, h.held⟩

theorem Sound.later (h : w.Sound s) (owner : s'.owner = s.owner) (settings : s'.settings = s.settings)
    (clock : s.clock ≤ s'.clock) : w.Sound s' where
  parting := h.parting
  releasing := by
    rw [owner]
    exact h.releasing
  cycling c cycling := by
    obtain ⟨⟨start, before, expiration, asks⟩, confirmed, purging⟩ := h.cycling c cycling
    refine ⟨⟨start, le_trans before clock, ?_, ?_⟩, confirmed, purging⟩
    · rw [settings]
      exact expiration
    · rw [owner]
      exact asks
  confirmed point known := by
    rw [settings]
    exact le_trans (h.confirmed point known) (Reading.clamp_mono (by omega))
  held := h.held

theorem Sound.madeBy (h : w.Sound s) {call : Call} (called : w.call? = some call) :
    call.request.MadeBy s.owner s.clock := by
  cases activity : w.activity with
  | releasing r =>
    obtain rfl : r.call = call := by simpa [call?, activity] using called
    rw [(h.releasing r activity).1]
    rfl
  | cycling c =>
    obtain rfl : c.call = call := by simpa [call?, activity] using called
    obtain ⟨start, before, _, asks⟩ := (h.cycling c activity).begun
    unfold Cycle.Asks at asks
    split at asks
    · rw [asks]
      exact before
    · rw [asks]
      rfl
    · obtain ⟨names, asks⟩ := asks
      rw [asks]
      rfl
    · rw [asks]
      rfl
    · rw [asks]
      rfl
  | waiting | draining | parting => simp [call?, activity] at called

theorem afterCommand_cases (b : Batch) :
    afterCommand b = .waiting ∨ b.wanted = true ∧ afterCommand b = .draining b := by
  unfold afterCommand
  split
  · exact .inr ⟨by assumption, rfl⟩
  · exact .inl rfl

section Activities

variable (confirmed : ∀ point, w.confirmedUntil = some point →
    point ≤ Reading.add s.clock s.settings.leaseMillis)
  (held : ∀ name slot, w.slots.find? name = some slot → slot.acquired = true →
    ∃ point, w.confirmedUntil = some point)

include confirmed held

theorem sound_idle (idle : w.activity = .waiting ∨ ∃ b, w.activity = .draining b) : w.Sound s := by
  refine ⟨fun name b parting => ?_, fun r releasing => ?_, fun c cycling => ?_, confirmed, held⟩
  · rcases idle with idle | ⟨_, idle⟩ <;> simp [parting] at idle
  · rcases idle with idle | ⟨_, idle⟩ <;> simp [releasing] at idle
  · rcases idle with idle | ⟨_, idle⟩ <;> simp [cycling] at idle

theorem sound_parting {name : String} {b : Batch} (parting : w.activity = .parting name b)
    (free : w.slots.find? name = none) : w.Sound s := by
  refine ⟨fun n b' parting' => ?_, fun r releasing => ?_, fun c cycling => ?_, confirmed, held⟩
  · rw [parting] at parting'
    cases parting'
    exact free
  · simp [parting] at releasing
  · simp [parting] at cycling

theorem sound_releasing {r : Releasing} (releasing : w.activity = .releasing r)
    (request : r.call.request = .deleteOwned r.name s.owner)
    (free : w.slots.find? r.name = none) : w.Sound s := by
  refine ⟨fun n b' parting => ?_, fun r releasing' => ?_, fun c cycling => ?_, confirmed, held⟩
  · simp [releasing] at parting
  · rw [releasing] at releasing'
    cases releasing'
    exact ⟨request, free⟩
  · simp [releasing] at cycling

theorem sound_cycling {c : Cycle} (cycling : w.activity = .cycling c) (sound : w.Cycling s c) :
    w.Sound s := by
  refine ⟨fun n b' parting => ?_, fun r releasing => ?_, fun c cycling' => ?_, confirmed, held⟩
  · simp [cycling] at parting
  · simp [cycling] at releasing
  · rw [cycling] at cycling'
    cases cycling'
    exact sound

end Activities

theorem idle_afterCommand (b : Batch) :
    afterCommand b = .waiting ∨ ∃ b', afterCommand b = .draining b' := by
  rcases afterCommand_cases b with eq | ⟨_, eq⟩
  · exact .inl eq
  · exact .inr ⟨b, eq⟩

theorem afterCommand_ne_cycling (b : Batch) (c : Cycle) : afterCommand b ≠ .cycling c := by
  rcases idle_afterCommand b with eq | ⟨_, eq⟩ <;> simp [eq]

theorem apply_activity (w : Worker) (c : Command) (b : Batch) :
    (w.apply c b).1.activity = afterCommand b ∧ c.ticket? = none
      ∨ (∃ name, (w.apply c b).1.activity = .parting name b
          ∧ (w.apply c b).1.slots.find? name = none) ∧ c.ticket? = none
      ∨ ∃ ticket, c = .maintain ticket
        ∧ (w.apply c b).1.activity = .draining ⟨b.tickets ++ ticket.toList, true⟩ := by
  cases c with
  | register name id => exact .inl ⟨rfl, rfl⟩
  | release name id =>
    simp only [apply, release]
    split
    · exact .inl ⟨rfl, rfl⟩
    · split
      · exact .inr (.inl ⟨⟨name, rfl, w.slots.find?_erase_self name⟩, rfl⟩)
      · exact .inl ⟨rfl, rfl⟩
  | maintain ticket => exact .inr (.inr ⟨ticket, rfl, rfl⟩)

/-- A command acquires nothing. -/
theorem find?_apply {c : Command} {b : Batch} {name : String} {slot : Slot}
    (found : (w.apply c b).1.slots.find? name = some slot) (acquired : slot.acquired = true) :
    w.slots.find? name = some slot := by
  cases c with
  | register other id =>
    change (w.slots.insert other ⟨id, false⟩).find? name = some slot at found
    by_cases same : name = other
    · rw [same, Slots.find?_insert_self] at found
      cases found
      simp at acquired
    · rw [Slots.find?_insert_of_ne _ _ same] at found
      exact found
  | release other id =>
    simp only [apply, release] at found
    split at found
    · exact found
    · split at found
      · change (w.slots.erase other).find? name = some slot at found
        by_cases same : name = other
        · rw [same, Slots.find?_erase_self] at found
          cases found
        · rw [Slots.find?_erase_of_ne w.slots same] at found
          exact found
      · exact found
  | maintain ticket => exact found

theorem confirmed_apply (w : Worker) (c : Command) (b : Batch) :
    (w.apply c b).1.confirmedUntil = w.confirmedUntil := by
  obtain ⟨slots, activity, eq⟩ := w.apply_eq c b
  rw [eq]

theorem find?_giveUp {name : String} {slot : Slot}
    (found : (w.giveUp s).1.slots.find? name = some slot) (acquired : slot.acquired = true) :
    w.slots.find? name = some slot := by
  cases due : w.mustGiveUp s with
  | false =>
    rw [giveUp_of_safe due] at found
    exact found
  | true =>
    rw [giveUp_of_due due] at found
    change (w.slots.assign fun _ => false).find? name = some slot at found
    rw [Slots.find?_assign] at found
    obtain ⟨old, _, rfl⟩ := Option.map_eq_some_iff.mp found
    simp at acquired

theorem confirmed_giveUp (w : Worker) (s : Surroundings) :
    (w.giveUp s).1.confirmedUntil = w.confirmedUntil := by
  obtain ⟨slots, eq⟩ := w.giveUp_eq s
  rw [eq]

theorem Sound.giveUp_held (h : w.Sound s) (name : String) (slot : Slot)
    (found : (w.giveUp s).1.slots.find? name = some slot) (acquired : slot.acquired = true) :
    ∃ point, (w.giveUp s).1.confirmedUntil = some point := by
  rw [confirmed_giveUp]
  exact h.held name slot (find?_giveUp found acquired) acquired

theorem Sound.giveUp_confirmed (h : w.Sound s) (point : Int)
    (known : (w.giveUp s).1.confirmedUntil = some point) :
    point ≤ Reading.add s.clock s.settings.leaseMillis := by
  rw [confirmed_giveUp] at known
  exact h.confirmed point known

theorem Sound.apply (h : w.Sound s) (c : Command) (b : Batch) : (w.apply c b).1.Sound s := by
  have confirmed : ∀ point, (w.apply c b).1.confirmedUntil = some point →
      point ≤ Reading.add s.clock s.settings.leaseMillis := by
    rw [confirmed_apply]
    exact h.confirmed
  have held : ∀ name slot, (w.apply c b).1.slots.find? name = some slot → slot.acquired = true →
      ∃ point, (w.apply c b).1.confirmedUntil = some point := by
    intro name slot found acquired
    rw [confirmed_apply]
    exact h.held name slot (find?_apply found acquired) acquired
  rcases w.apply_activity c b with ⟨idle, _⟩ | ⟨⟨name, parting, free⟩, _⟩ | ⟨ticket, _, draining⟩
  · exact sound_idle confirmed held (idle ▸ idle_afterCommand b)
  · exact sound_parting confirmed held parting free
  · exact sound_idle confirmed held (.inr ⟨_, draining⟩)

theorem Sound.purge (h : w.Sound s) (c : Cycle) (names : List String)
    (begun : ∃ start ≤ s.clock, c.expiration = Reading.add start s.settings.leaseMillis)
    (known : w.confirmedUntil = some c.expiration)
    (free : ∀ n ∈ names, w.slots.find? n = none) : (w.purge s c names).1.Sound s := by
  cases names with
  | nil => exact sound_idle h.confirmed h.held (.inl rfl)
  | cons name rest =>
    obtain ⟨start, before, expiration⟩ := begun
    refine sound_cycling h.confirmed h.held rfl
      ⟨⟨start, before, expiration, rfl⟩, fun point knows => ?_, ?_⟩
    · have same := knows.symm.trans known
      exact le_of_eq (Option.some.inj same)
    · rintro _ _ ⟨⟩
      exact ⟨free, known⟩

theorem sound_reconcile {c : Cycle} (owned : List String)
    (begun : ∃ start ≤ s.clock, c.expiration = Reading.add start s.settings.leaseMillis) :
    ((w.reconcile s owned c.expiration).1.purge s c (w.orphans owned)).1.Sound s := by
  obtain ⟨start, before, expiration⟩ := begun
  have idle : ({ (w.reconcile s owned c.expiration).1 with activity := .waiting } : Worker).Sound s := by
    refine sound_idle ?_ (fun _ _ _ _ => ⟨c.expiration, rfl⟩) (.inl rfl)
    rintro point ⟨⟩
    rw [expiration]
    exact Reading.clamp_mono (by omega)
  have purged := idle.purge c (w.orphans owned) ⟨start, before, expiration⟩ rfl ?_
  · cases orphans : w.orphans owned with
    | nil => exact idle
    | cons name rest =>
      rw [orphans] at purged
      exact purged
  · intro n orphan
    have free : w.slots.find? n = none := by
      rw [Worker.orphans, List.mem_eraseDups] at orphan
      simpa using (List.mem_filter.mp orphan).2
    change (w.slots.assign owned.contains).find? n = none
    rw [Slots.find?_assign, free]
    rfl

theorem Sound.resume (h : w.Sound s) {c : Cycle} (cycling : w.activity = .cycling c) (reply : Reply) :
    (w.resume s c reply).1.Sound s := by
  obtain ⟨⟨start, before, expiration, asks⟩, confirmed, purging⟩ := h.cycling c cycling
  have asking {stage : Stage} {request : Request} (plain : ∀ name rest, stage ≠ .purging name rest)
      (asks : ({ c with stage, call := Call.place s.link s.now request } : Cycle).Asks s.owner start) :
      (w.askNext s c stage request).1.Sound s := by
    exact sound_cycling h.confirmed h.held rfl
      ⟨⟨start, before, expiration, asks⟩, confirmed, fun name rest is => absurd is (plain name rest)⟩
  unfold Worker.resume
  split
  · exact asking nofun rfl
  · simp only
    split
    · exact asking nofun rfl
    · exact asking nofun ⟨_, rfl⟩
  · exact asking nofun rfl
  · exact sound_reconcile _ ⟨start, before, expiration⟩
  · rename_i name rest stage
    obtain ⟨free, known⟩ := purging name rest stage
    exact h.purge c rest ⟨start, before, expiration⟩ known fun n member =>
      free n (List.mem_cons_of_mem _ member)

/-- A worker stays sound in every step. -/
theorem Sound.move (h : w.Sound s) {r : WorkerStep} (move : w.Move s queue store r) :
    r.worker.Sound s := by
  have failed (activity : Activity) (idle : activity = .waiting ∨ ∃ b, activity = .draining b) :
      ({ (w.giveUp s).1 with activity } : Worker).Sound s :=
    sound_idle h.giveUp_confirmed h.giveUp_held idle
  cases move with
  | @take c _ _ b listening => exact h.apply c b
  | beginCycle draining =>
    exact sound_cycling h.confirmed h.held rfl ⟨⟨s.clock, le_rfl, rfl, rfl⟩, h.confirmed, nofun⟩
  | @beginRelease _ _ name b parting =>
    exact sound_releasing h.confirmed h.held rfl rfl (h.parting name b parting)
  | @endRelease _ _ r releasing due => exact sound_idle h.confirmed h.held (idle_afterCommand r.batch)
  | @abandonRelease _ _ r releasing pending late => exact failed _ (idle_afterCommand r.batch)
  | resume cycling due answered => exact h.resume cycling _
  | failCycle cycling due failed' => exact failed _ (.inl rfl)
  | overrun cycling pending late => exact failed _ (.inl rfl)

end Worker

end Leasehold
