import Leasehold.Proofs.Soundness

/-! # What backs a lease

A worker that holds a lease has a row for it that lasts as long as the worker has it confirmed, unless
somebody's clock has passed that point. `Worker.Backed` says so; it survives the worker's own steps,
whatever becomes of its calls, and the requests of other managers.

A call that the worker has given up may still be carried out, and may take a row away that the worker
relies on. `Worker.BackedExcept` leaves room for that.
-/

namespace Leasehold

namespace Worker

variable {w : Worker} {s : Surroundings} {queue : List Command} {store : Backend} {held : Holdings}
  {owner : String} {late : Int → Prop} {lost stale : String → Int → Prop}

/-- Every lease that is held has a row that lasts until it is confirmed, unless that row is lost. When a
    cycle asks for the owned names, all rows have the expiration that it has written, unless one is
    stale. -/
structure BackedExcept (owner : String) (held : Holdings) (lost stale : String → Int → Prop)
    (w : Worker) : Prop where
  backed : ∀ name slot, w.slots.find? name = some slot → slot.acquired = true →
    ∃ point, w.confirmedUntil = some point
      ∧ ((∃ e, point ≤ e ∧ held name = some ⟨owner, e⟩) ∨ lost name point)
  current : ∀ c, w.activity = .cycling c → c.stage = .claiming ∨ c.stage = .selecting →
    ∀ name e, held name = some ⟨owner, e⟩ → c.expiration ≤ e ∨ stale name c.expiration

/-- Every lease that is held has a row that lasts until it is confirmed, or it is too late for that. -/
abbrev Backed (owner : String) (held : Holdings) (late : Int → Prop) (w : Worker) : Prop :=
  w.BackedExcept owner held (fun _ => late) fun _ _ => False

theorem backed_fresh (aborted : Bool) :
    ({ fresh with aborted } : Worker).BackedExcept owner held lost stale := by
  constructor <;> simp [fresh, Slots.find?]

theorem BackedExcept.abort (h : w.BackedExcept owner held lost stale) (aborted : Bool) :
    ({ w with aborted } : Worker).BackedExcept owner held lost stale := ⟨h.backed, h.current⟩

theorem BackedExcept.later (h : w.BackedExcept owner held lost stale) {lost' stale' : String → Int → Prop}
    (more : ∀ name point, lost name point → lost' name point)
    (older : ∀ name point, stale name point → stale' name point) :
    w.BackedExcept owner held lost' stale' where
  backed name slot found acquired := by
    obtain ⟨point, known, row | gone⟩ := h.backed name slot found acquired
    · exact ⟨point, known, .inl row⟩
    · exact ⟨point, known, .inr (more name point gone)⟩
  current c cycling stage name e row :=
    (h.current c cycling stage name e row).imp_right (older name c.expiration)

theorem Backed.later (h : w.Backed owner held late) {late' : Int → Prop}
    (more : ∀ point, late point → late' point) : w.Backed owner held late' :=
  BackedExcept.later h (fun _ => more) fun _ _ => id

theorem Backed.current (h : w.Backed owner held late) {c : Cycle} (cycling : w.activity = .cycling c)
    (stage : c.stage = .claiming ∨ c.stage = .selecting) {name : String} {e : Int}
    (row : held name = some ⟨owner, e⟩) : c.expiration ≤ e :=
  (BackedExcept.current h c cycling stage name e row).resolve_right id

/-- Requests of others take no row away before it is too late. -/
theorem BackedExcept.foreign (h : w.BackedExcept owner held lost stale) {r : Request}
    (foreign : r.Foreign owner)
    (past : ∀ now, r = .deleteExpired now → ∀ name, ∀ point < now, lost name point) :
    w.BackedExcept owner (r.effect held) lost stale where
  backed name slot found acquired := by
    obtain ⟨point, known, ⟨e, lasts, row⟩ | gone⟩ := h.backed name slot found acquired
    · rcases foreign.keeps row with kept | ⟨now, collects, spent⟩
      · exact ⟨point, known, .inl ⟨e, lasts, kept⟩⟩
      · exact ⟨point, known, .inr (past now collects name point (lt_of_le_of_lt lasts spent))⟩
    · exact ⟨point, known, .inr gone⟩
  current c cycling stage name e row := h.current c cycling stage name e (foreign.origin row)

/-- The worker's own requests leave the rows of its leases, or move them to a later end, or collect
    them after their time. -/
theorem Sound.row_cases (sound : w.Sound s) {call : Call} (called : w.call? = some call)
    {name : String} {slot : Slot} {point e : Int} (found : w.slots.find? name = some slot)
    (written : ∀ c, w.activity = .cycling c → point ≤ c.expiration) (lasts : point ≤ e)
    (row : held name = some ⟨s.owner, e⟩) :
    (∃ e', point ≤ e' ∧ call.request.effect held name = some ⟨s.owner, e'⟩)
      ∨ ∃ now, call.request = .deleteExpired now ∧ point < now := by
  have spares {other : String} (free : w.slots.find? other = none) :
      (Request.deleteOwned other s.owner).effect held name = some ⟨s.owner, e⟩ := by
    have ne : name ≠ other := by
      rintro rfl
      simp [found] at free
    simp [Request.effect, row, ne]
  cases activity : w.activity with
  | waiting | draining | parting => simp [call?, activity] at called
  | releasing r =>
    obtain rfl : r.call = call := by simpa [call?, activity] using called
    obtain ⟨request, free⟩ := sound.releasing r activity
    rw [request]
    exact .inl ⟨e, lasts, spares free⟩
  | cycling c =>
    obtain rfl : c.call = call := by simpa [call?, activity] using called
    obtain ⟨⟨start, before, _, asks⟩, _, purging⟩ := sound.cycling c activity
    cases stage : c.stage with
    | collecting =>
      simp only [Cycle.Asks, stage] at asks
      rw [asks]
      by_cases live : start ≤ e
      · exact .inl ⟨e, lasts, by simp [Request.effect, row, live]⟩
      · exact .inr ⟨start, rfl, by omega⟩
    | refreshing =>
      simp only [Cycle.Asks, stage] at asks
      rw [asks]
      exact .inl ⟨c.expiration, written c activity, by simp [Request.effect, row]⟩
    | claiming =>
      simp only [Cycle.Asks, stage] at asks
      obtain ⟨names, asks⟩ := asks
      rw [asks]
      exact .inl ⟨e, lasts, by simp [Request.effect, row]⟩
    | selecting =>
      simp only [Cycle.Asks, stage] at asks
      rw [asks]
      exact .inl ⟨e, lasts, row⟩
    | purging other rest =>
      simp only [Cycle.Asks, stage] at asks
      rw [asks]
      exact .inl ⟨e, lasts, spares ((purging other rest stage).1 other List.mem_cons_self)⟩

theorem Sound.keeps_row (sound : w.Sound s) {call : Call} (called : w.call? = some call)
    {name : String} {slot : Slot} {point e : Int} (found : w.slots.find? name = some slot)
    (written : ∀ c, w.activity = .cycling c → point ≤ c.expiration) (lasts : point ≤ e)
    (row : held name = some ⟨s.owner, e⟩) :
    (∃ e', point ≤ e' ∧ call.request.effect held name = some ⟨s.owner, e'⟩) ∨ point < s.clock := by
  apply (sound.row_cases called found written lasts row).imp_right
  rintro ⟨now, asks, past⟩
  have made := sound.madeBy called
  rw [asks] at made
  exact lt_of_lt_of_le past made

theorem BackedExcept.own_call (h : w.BackedExcept s.owner held lost stale) (sound : w.Sound s)
    {call : Call} (called : w.call? = some call)
    (past : ∀ now, call.request = .deleteExpired now → ∀ name, ∀ point < now, lost name point)
    {name : String} {slot : Slot} (found : w.slots.find? name = some slot)
    (acquired : slot.acquired = true) :
    ∃ point, w.confirmedUntil = some point
      ∧ ((∃ e, point ≤ e ∧ call.request.effect held name = some ⟨s.owner, e⟩) ∨ lost name point) := by
  obtain ⟨point, known, ⟨e, lasts, row⟩ | gone⟩ := h.backed name slot found acquired
  · have written (c : Cycle) (cycling : w.activity = .cycling c) : point ≤ c.expiration :=
      (sound.cycling c cycling).confirmed point known
    refine ⟨point, known, (sound.row_cases called found written lasts row).imp_right ?_⟩
    rintro ⟨now, asks, spent⟩
    exact past now asks name point spent
  · exact ⟨point, known, .inr gone⟩

theorem Move.held_cases {r : WorkerStep} (move : w.Move s queue store r) (keyed : store.Keyed) :
    r.store.held = store.held
      ∨ ∃ call, w.call? = some call ∧ r.store.held = call.request.effect store.held := by
  have ended {call : Call} (called : w.call? = some call) :
      (call.finish .worker s.trueTime store).2.1.held = store.held
        ∨ ∃ call', w.call? = some call' ∧ (call.finish .worker s.trueTime store).2.1.held
            = call'.request.effect store.held := by
    rcases call.finish_held .worker s.trueTime keyed with same | ⟨done, _⟩
    · exact .inl same
    · exact .inr ⟨call, called, done⟩
  cases move with
  | take | beginCycle | beginRelease | abandonRelease | overrun => exact .inl rfl
  | endRelease releasing due => exact ended (by simp [call?, releasing])
  | resume cycling due answered => exact ended (by simp [call?, cycling])
  | failCycle cycling due failed => exact ended (by simp [call?, cycling])

theorem Move.keyed {r : WorkerStep} (move : w.Move s queue store r) (keyed : store.Keyed) :
    r.store.Keyed := by
  cases move with
  | take | beginCycle | beginRelease | abandonRelease | overrun => exact keyed
  | endRelease | resume | failCycle => exact Call.keyed_finish _ _ _ keyed

theorem Move.effects (move : w.Move s queue store r) {caller : Caller} {request : Request}
    (told : (caller, request) ∈ effectsIn r.notes) :
    ∃ call, w.call? = some call ∧ request = call.request := by
  cases move.account with
  | @took c _ _ _ rest posted plain =>
    change _ ∈ effectsIn rest at told
    rw [plain.effectsIn] at told
    cases told
  | @began _ _ rest draining plain =>
    change _ ∈ effectsIn rest at told
    rw [plain.effectsIn] at told
    cases told
  | @ended _ _ call _ rest called due plain =>
    rw [effectsIn_append, plain.effectsIn, List.append_nil] at told
    refine ⟨call, called, ?_⟩
    rcases effectsIn_finish call .worker s.trueTime store with silent | one
    · rw [silent] at told
      cases told
    · rw [one] at told
      cases List.mem_singleton.mp told
      rfl
  | other plain =>
    rw [plain.effectsIn] at told
    cases told

theorem backed_of_slots (backed : ∀ name slot, w.slots.find? name = some slot → slot.acquired = true →
      ∃ point, w.confirmedUntil = some point
        ∧ ((∃ e, point ≤ e ∧ held name = some ⟨owner, e⟩) ∨ lost name point))
    (quiet : ∀ c, w.activity = .cycling c → c.stage ≠ .claiming ∧ c.stage ≠ .selecting) :
    w.BackedExcept owner held lost stale := by
  refine ⟨backed, fun c cycling stage => ?_⟩
  rcases stage with claiming | selecting
  · exact absurd claiming (quiet c cycling).1
  · exact absurd selecting (quiet c cycling).2

theorem BackedExcept.apply (h : w.BackedExcept owner held lost stale) (c : Command) (b : Batch)
    {stale' : String → Int → Prop} : (w.apply c b).1.BackedExcept owner held lost stale' := by
  refine backed_of_slots (fun name slot found acquired => ?_) fun c' cycling => ?_
  · rw [confirmed_apply]
    exact h.backed name slot (find?_apply found acquired) acquired
  · rcases w.apply_activity c b with ⟨eq, _⟩ | ⟨⟨_, eq, _⟩, _⟩ | ⟨_, _, eq⟩
    · exact absurd (eq.symm.trans cycling) (afterCommand_ne_cycling b c')
    · cases eq.symm.trans cycling
    · cases eq.symm.trans cycling

theorem purge_stage {c c' : Cycle} {names : List String}
    (cycling : (w.purge s c names).1.activity = .cycling c') :
    c'.stage ≠ .claiming ∧ c'.stage ≠ .selecting := by
  cases names with
  | nil => cases cycling
  | cons name rest =>
    cases cycling
    exact ⟨nofun, nofun⟩

/-- The answer to the last question of a cycle tells which leases are held, and their rows. -/
theorem backed_reconcile {c : Cycle} (owned : List String)
    (rows : ∀ name, name ∈ owned ↔ ∃ e, held name = some ⟨owner, e⟩)
    (current : ∀ name e, held name = some ⟨owner, e⟩ → c.expiration ≤ e ∨ lost name c.expiration) :
    ((w.reconcile s owned c.expiration).1.purge s c (w.orphans owned)).1.BackedExcept owner held lost
      stale := by
  refine backed_of_slots (fun name slot found acquired => ?_) fun c' => purge_stage
  obtain ⟨activity, eq⟩ := (w.reconcile s owned c.expiration).1.purge_eq s c (w.orphans owned)
  rw [eq] at found ⊢
  change (w.slots.assign owned.contains).find? name = some slot at found
  rw [Slots.find?_assign] at found
  obtain ⟨old, _, rfl⟩ := Option.map_eq_some_iff.mp found
  obtain ⟨e, row⟩ := (rows name).mp (by simpa using acquired)
  exact ⟨c.expiration, rfl, (current name e row).imp_left fun lasts => ⟨e, lasts, row⟩⟩

/-- Nothing that was lost before matters for the leases of a worker that has learned what it owns, but
    what was stale does. -/
theorem BackedExcept.learn (h : w.BackedExcept s.owner store.held lost stale) (sound : w.Sound s)
    (keyed : store.Keyed) {lost' stale' : String → Int → Prop} {c : Cycle} {reply : Reply}
    (cycling : w.activity = .cycling c) (stage : c.stage = .selecting)
    (answered : (c.call.finish .worker s.trueTime store).1 = .ok reply)
    (seen : ∀ name point, stale name point → lost' name point) :
    (w.resume s c reply).1.BackedExcept s.owner (c.call.finish .worker s.trueTime store).2.1.held lost'
      stale' := by
  obtain ⟨performed, store_eq, _⟩ := Call.finish_ok answered
  rw [store_eq, Backend.held_perform keyed performed]
  obtain ⟨start, before, expiration, asks⟩ := (sound.cycling c cycling).begun
  simp only [Cycle.Asks, stage] at asks
  rw [asks] at performed ⊢
  simp only [Worker.resume, stage]
  exact backed_reconcile _ (Backend.mem_nameList_selectOwned keyed performed)
    fun name e row => (h.current c cycling (.inr stage) name e row).imp_right (seen name c.expiration)

/-- What was stale does not matter any more once the rows have been refreshed. -/
theorem BackedExcept.resume (h : w.BackedExcept s.owner store.held lost stale) (sound : w.Sound s)
    (keyed : store.Keyed) {stale' : String → Int → Prop} {c : Cycle}
    (past : ∀ now, c.call.request = .deleteExpired now → ∀ name, ∀ point < now, lost name point)
    (seen : (∃ o, c.call.request = .selectOwned o) → ∀ name point, stale name point → lost name point)
    (older : (∀ o e, c.call.request ≠ .refreshOwned o e) →
      ∀ name point, stale name point → stale' name point)
    {reply : Reply} (cycling : w.activity = .cycling c)
    (answered : (c.call.finish .worker s.trueTime store).1 = .ok reply) :
    (w.resume s c reply).1.BackedExcept s.owner (c.call.finish .worker s.trueTime store).2.1.held lost
      stale' := by
  have called : w.call? = some c.call := by simp [call?, cycling]
  have learned (stage : c.stage = .selecting) : (w.resume s c reply).1.BackedExcept s.owner
      (c.call.finish .worker s.trueTime store).2.1.held lost stale' := by
    obtain ⟨start, _, _, asks⟩ := (sound.cycling c cycling).begun
    simp only [Cycle.Asks, stage] at asks
    exact h.learn sound keyed cycling stage answered (seen ⟨_, asks⟩)
  obtain ⟨performed, store_eq, _⟩ := Call.finish_ok answered
  rw [store_eq, Backend.held_perform keyed performed] at learned ⊢
  have backed := fun name slot (found : w.slots.find? name = some slot) acquired =>
    h.own_call sound called past found acquired
  obtain ⟨⟨start, before, expiration, asks⟩, confirmed, purging⟩ := sound.cycling c cycling
  have asking {stage : Stage} {request : Request}
      (current : stage = .claiming ∨ stage = .selecting → ∀ name e,
        c.call.request.effect store.held name = some ⟨s.owner, e⟩ →
          c.expiration ≤ e ∨ stale' name c.expiration) :
      (w.askNext s c stage request).1.BackedExcept s.owner (c.call.request.effect store.held) lost
        stale' := by
    refine ⟨backed, ?_⟩
    rintro c' ⟨⟩ is name e row
    exact current is name e row
  unfold Worker.resume
  split
  · exact asking (by simp)
  · rename_i stage
    have written : ∀ name e, c.call.request.effect store.held name = some ⟨s.owner, e⟩ →
        c.expiration ≤ e ∨ stale' name c.expiration := by
      intro name e row
      left
      simp only [Cycle.Asks, stage] at asks
      rw [asks] at row
      obtain ⟨hold, _, eq⟩ := Option.map_eq_some_iff.mp row
      split at eq
      · cases eq
        exact le_rfl
      · rename_i foreign
        rw [eq] at foreign
        exact absurd rfl foreign
    simp only
    split
    · exact asking fun _ => written
    · exact asking fun _ => written
  · rename_i stage
    refine asking fun _ name e row => ?_
    simp only [Cycle.Asks, stage] at asks
    obtain ⟨names, asks⟩ := asks
    have kept := older (by simp [asks])
    rw [asks] at row
    rcases Option.or_eq_some_iff.mp row with old | ⟨_, new⟩
    · exact (h.current c cycling (.inl stage) name e old).imp_right (kept name c.expiration)
    · split at new
      · cases new
        exact .inl le_rfl
      · cases new
  · rename_i stage
    have learned := learned stage
    simp only [Worker.resume, stage] at learned
    exact learned
  · obtain ⟨activity, eq⟩ := w.purge_eq s c ‹List String›
    refine backed_of_slots (fun name slot found acquired => ?_) fun c' => purge_stage
    rw [eq] at found ⊢
    exact backed name slot found acquired

/-- Leases stay backed in every step of their worker, if the rows that the step collects count as lost. -/
theorem BackedExcept.carry (h : w.BackedExcept s.owner store.held lost stale) (sound : w.Sound s)
    (keyed : store.Keyed) {stale' : String → Int → Prop} {r : WorkerStep} (move : w.Move s queue store r)
    (past : ∀ now, (.worker, .deleteExpired now) ∈ effectsIn r.notes →
      ∀ name, ∀ point < now, lost name point)
    (seen : (∃ o reply, .answered .worker (.selectOwned o) reply ∈ r.notes) →
      ∀ name point, stale name point → lost name point)
    (older : (∀ o e, (.worker, .refreshOwned o e) ∉ effectsIn r.notes) →
      ∀ name point, stale name point → stale' name point) :
    r.worker.BackedExcept s.owner r.store.held lost stale' := by
  have ended (held : Holdings) {activity : Activity} (idle : ∀ c, activity ≠ .cycling c)
      (backed : ∀ name slot, w.slots.find? name = some slot → slot.acquired = true →
        ∃ point, w.confirmedUntil = some point
          ∧ ((∃ e, point ≤ e ∧ held name = some ⟨s.owner, e⟩) ∨ lost name point)) :
      ({ (w.giveUp s).1 with activity } : Worker).BackedExcept s.owner held lost stale' := by
    refine backed_of_slots (fun name slot found acquired => ?_) fun c cycling => absurd cycling (idle c)
    change ∃ point, (w.giveUp s).1.confirmedUntil = some point ∧ _
    rw [confirmed_giveUp]
    exact backed name slot (find?_giveUp found acquired) acquired
  have called {call : Call} (called : w.call? = some call)
      (noted : ∀ e ∈ effectsIn (call.finish .worker s.trueTime store).2.2, e ∈ effectsIn r.notes) :
      ∀ name slot, w.slots.find? name = some slot → slot.acquired = true →
        ∃ point, w.confirmedUntil = some point
          ∧ ((∃ e, point ≤ e ∧ (call.finish .worker s.trueTime store).2.1.held name
            = some ⟨s.owner, e⟩) ∨ lost name point) := by
    intro name slot found acquired
    rcases finish_effects call .worker s.trueTime keyed with same | ⟨done, told⟩
    · rw [same]
      exact h.backed name slot found acquired
    · rw [done]
      refine h.own_call sound called (fun now asks => past now (noted _ ?_)) found acquired
      rw [told, asks]
      exact List.mem_singleton_self _
  have first {notes notes' : List Note} : ∀ e ∈ effectsIn notes, e ∈ effectsIn (notes ++ notes') := by
    intro e told
    rw [effectsIn_append]
    exact List.mem_append_left _ told
  have source {request : Request} (told : (.worker, request) ∈ effectsIn r.notes) := move.effects told
  cases move with
  | @take c _ _ b listening => exact h.apply c b
  | beginCycle draining =>
    refine backed_of_slots h.backed fun c cycling => ?_
    cases cycling
    exact ⟨nofun, nofun⟩
  | beginRelease parting => exact backed_of_slots h.backed fun c cycling => by cases cycling
  | @endRelease _ _ r releasing due =>
    exact backed_of_slots (called (by simp [call?, releasing]) first)
      fun c cycling => absurd cycling (afterCommand_ne_cycling r.batch c)
  | @abandonRelease _ _ r releasing pending late =>
    exact ended _ (afterCommand_ne_cycling r.batch) h.backed
  | @resume _ _ c reply cycling due answered =>
    have told := (Call.finish_ok answered).2.2
    refine h.resume sound keyed (fun now asks => past now (first _ ?_)) ?_ (fun other => older ?_) cycling
      answered
    · rw [told, asks]
      exact List.mem_cons_self
    · rintro ⟨o, asks⟩
      refine seen ⟨o, reply, List.mem_append_left _ ?_⟩
      rw [told, asks]
      simp
    · intro o e told
      obtain ⟨call, waiting, same⟩ := source told
      obtain rfl : c.call = call := by simpa [call?, cycling] using waiting
      exact other o e same.symm
  | failCycle cycling due failed =>
    exact ended _ (fun c cycling => by cases cycling) (called (by simp [call?, cycling]) first)
  | overrun cycling pending late => exact ended _ (fun c cycling => by cases cycling) h.backed

theorem Backed.move (h : w.Backed s.owner store.held late) (sound : w.Sound s) (keyed : store.Keyed)
    (past : ∀ point, point < s.clock → late point) {r : WorkerStep}
    (move : w.Move s queue store r) : r.worker.Backed s.owner r.store.held late := by
  refine h.carry sound keyed move (fun now told _ point spent => past point ?_) (fun _ => nofun)
    fun _ _ _ => id
  obtain ⟨call, called, asks⟩ := move.effects told
  have made := sound.madeBy called
  rw [← asks] at made
  exact lt_of_lt_of_le spent made

end Worker

end Leasehold
