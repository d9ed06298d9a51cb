import Leasehold.Proofs.Adrift
import Leasehold.Proofs.CycleStarts
import Leasehold.Proofs.Trouble

/-! # How a row changes hands

Between two calls of one cycle other managers may do anything to the rows. What each single call may
do is enough: the row of an owner goes by its own deletion, or by a collection after its time, and
leaves the name without a row; only then can somebody else claim it. A call that was given up and is
carried out late may do no more.
-/

namespace Leasehold

namespace Request.DatedBy

variable {owner name : String} {lease : Int} {latest : Option Int} {r : Request} {held : Holdings}
  {h : Holding}

/-- An owner keeps the row of a name, or the name has none afterwards. -/
theorem kept_or_gone (dated : r.DatedBy owner lease latest) (there : held name = some h) :
    (∃ e, r.effect held name = some ⟨h.owner, e⟩)
      ∨ r.effect held name = none ∧ (r = .deleteOwned name h.owner ∧ owner = h.owner
          ∨ ∃ now, r = .deleteExpired now ∧ h.expiration < now) := by
  cases r with
  | deleteExpired now =>
    by_cases live : now ≤ h.expiration
    · exact .inl ⟨h.expiration, by simp [effect, there, live]⟩
    · exact .inr ⟨by simp [effect, there, not_le.mp live], .inr ⟨now, rfl, not_le.mp live⟩⟩
  | refreshOwned o e =>
    by_cases own : h.owner = o
    · exact .inl ⟨e, by simp [effect, there, own]⟩
    · exact .inl ⟨h.expiration, by simp [effect, there, own]⟩
  | claimAbsent names o e => exact .inl ⟨h.expiration, by simp [effect, there]⟩
  | deleteOwned n o =>
    obtain rfl : o = owner := dated
    by_cases own : name = n ∧ h.owner = o
    · obtain ⟨rfl, rfl⟩ := own
      exact .inr ⟨by simp [effect, there], .inl ⟨rfl, rfl⟩⟩
    · refine .inl ⟨h.expiration, ?_⟩
      simp only [effect, there, Option.filter_some]
      rw [if_pos (by simpa [imp_iff_not_or] using own)]
  | selectOwned o => exact .inl ⟨h.expiration, there⟩
  | referenceTime | ensureSchema | dropSchema | listAll => exact dated.elim

/-- The row of somebody else is left alone, except by a collection that its cycle began after the
    time of the row. -/
theorem spares (dated : r.DatedBy owner lease latest) (other : h.owner ≠ owner)
    (there : held name = some h) : r.effect held name = some h
      ∨ ∃ start, latest = some start ∧ r = .deleteExpired start ∧ h.expiration < start := by
  cases r with
  | deleteExpired now =>
    by_cases live : now ≤ h.expiration
    · exact .inl (by simp [effect, there, live])
    · exact .inr ⟨now, dated, rfl, not_le.mp live⟩
  | refreshOwned o e =>
    obtain ⟨rfl, _⟩ := dated
    exact .inl (by simp [effect, there, other])
  | claimAbsent names o e => exact .inl (by simp [effect, there])
  | deleteOwned n o =>
    obtain rfl : o = owner := dated
    exact .inl (by simp [effect, there, other])
  | selectOwned o => exact .inl there
  | referenceTime | ensureSchema | dropSchema | listAll => exact dated.elim

end Request.DatedBy

theorem Backend.nodup_rows {b : Backend} (keyed : b.Keyed) : (b.rows.map Record.name).Nodup := by
  rw [Backend.rows_eq_toList, MemoryStore.toList, List.map_map]
  exact keyed

theorem Worker.Move.write_cases {w : Worker} {s : Surroundings} {queue : List Command}
    {store : Backend} {r : WorkerStep} (move : w.Move s queue store r) (keyed : store.Keyed) :
    r.store.held = store.held ∨ ∃ call, w.call? = some call
      ∧ r.store.held = call.request.effect store.held
      ∧ effectsIn r.notes = [(.worker, call.request)] := by
  cases move.account with
  | took | began | other => exact .inl rfl
  | @ended _ _ call _ rest called due plain =>
    refine (finish_effects call .worker s.trueTime keyed).imp_right fun ⟨done, told⟩ => ?_
    refine ⟨call, called, done, ?_⟩
    rw [effectsIn_append, told, plain.effectsIn, List.append_nil]

theorem Manager.Move.write_cases {m m' : Manager} {s : Surroundings} {store b : Backend}
    {notes : List Note} (move : m.Move s store m' b notes) (modest : m.Modest) (keyed : store.Keyed) :
    b.held = store.held ∨ ∃ k call, m.worker = some k ∧ k.call? = some call
      ∧ b.held = call.request.effect store.held
      ∧ effectsIn notes = [(.worker, call.request)] := by
  rcases move.work_cases with ⟨k, r, present, step, _, rfl, rfl⟩ | aside
  · refine (step.write_cases keyed).imp_right fun ⟨call, called, done, told⟩ => ?_
    exact ⟨k, call, present, called, done, told⟩
  · exact .inl (aside.held modest keyed)

namespace World

variable {w w' : World} {i : Nat} {p : Participant} {m : Manager} {b : Backend} {notes : List Note}

theorem Moved.keyed (moved : w.Moved i p m b notes w') (keyed : ∀ b ∈ w.stores, b.Keyed) :
    ∀ b ∈ w'.stores, b.Keyed := by
  intro b' inside
  rw [moved.stores] at inside
  by_cases placed : p.store < w.stores.length
  · rcases List.mem_or_eq_of_mem_set inside with old | rfl
    · exact keyed b' old
    · exact moved.move.keyed (keyed _ (storeOf_mem placed))
  · rw [List.set_eq_of_length_le (not_lt.mp placed)] at inside
    exact keyed b' inside

theorem Change.keyed {a : Action} (change : w.Change a w') (keyed : ∀ b ∈ w.stores, b.Keyed) :
    ∀ b ∈ w'.stores, b.Keyed := by
  cases change with
  | move moved => exact moved.keyed keyed
  | rest same =>
    rw [same.stores]
    exact keyed
  | tick | setLink | setClock => exact keyed
  | use store request =>
    unfold World.use
    split
    · exact keyed
    · rename_i b₀ found
      intro b' inside
      rcases List.mem_or_eq_of_mem_set inside with old | rfl
      · exact keyed b' old
      · exact Backend.keyed_perform (keyed b₀ (List.mem_of_getElem? found)) _ _
  | @land place stray p b₀ _ landed =>
    rw [landed.eq]
    intro b' inside
    rcases List.mem_or_eq_of_mem_set inside with old | rfl
    · exact keyed b' old
    · exact Backend.keyed_perform (keyed b₀ (List.mem_of_getElem? landed.found)) _ _

theorem keyed_of_run {actions : List Action} (run : w.run? actions = some w')
    (keyed : ∀ b ∈ w.stores, b.Keyed) : ∀ b ∈ w'.stores, b.Keyed :=
  run?_preserves (P := fun v => ∀ b ∈ v.stores, b.Keyed)
    (fun _ _ _ keyed (_ : True) change => change.keyed keyed) (fun _ _ => trivial) run keyed

/-- The rows of a store after a move: as they were, or a call of the worker of one of its users has
    ended, and nothing else has been carried out. -/
theorem Moved.write_cases (moved : w.Moved i p m b notes w') (modest : p.manager.Modest)
    (keyed : ∀ b ∈ w.stores, b.Keyed) {n : Nat} {b₀ b₁ : Backend} (before : w.stores[n]? = some b₀)
    (after : w'.stores[n]? = some b₁) : b₁.held = b₀.held
      ∨ p.store = n ∧ ∃ k call, p.manager.worker = some k ∧ k.call? = some call
        ∧ b₁.held = call.request.effect b₀.held ∧ effectsIn notes = [(.worker, call.request)] := by
  rw [moved.stores, List.getElem?_set] at after
  by_cases own : p.store = n
  · subst own
    have inside := (List.getElem?_eq_some_iff.mp before).1
    have same : w.storeOf p = b₀ := by simp [storeOf, before]
    rw [if_pos rfl, if_pos inside] at after
    cases after
    have cases := moved.move.write_cases modest (same ▸ keyed b₀ (List.mem_of_getElem? before))
    rw [same] at cases
    exact cases.imp_right fun wrote => ⟨rfl, wrote⟩
  · rw [if_neg own, before] at after
    cases after
    exact .inl rfl

/-- What an action of managers makes of the rows of a store, or of the store itself, late. -/
theorem Change.write_cases {a : Action} (change : w.Change a w')
    (managers : ∀ store request, a ≠ .use store request)
    (modest : ∀ p ∈ w.participants, p.manager.Modest) (keyed : ∀ b ∈ w.stores, b.Keyed) {n : Nat}
    {b₀ b₁ : Backend} (before : w.stores[n]? = some b₀) (after : w'.stores[n]? = some b₁) :
    b₁.held = b₀.held
      ∨ (∃ i p k call, w.participants[i]? = some p ∧ p.store = n
        ∧ p.manager.worker = some k ∧ k.call? = some call ∧ b₁.held = call.request.effect b₀.held
        ∧ ∀ j, effectsIn (w.newsOf w' j) = if i = j then [(.worker, call.request)] else [])
      ∨ ∃ place stray p b, w.Landed place stray p b w' ∧ p.store = n
        ∧ b₁.held = stray.request.effect b₀.held := by
  have same (stores : w'.stores = w.stores) : b₁.held = b₀.held := by
    rw [stores, before] at after
    cases after
    rfl
  cases change with
  | @move _ i p m b notes _ moved =>
    have inside := List.mem_of_getElem? moved.present
    refine (moved.write_cases (modest p inside) keyed before after).imp_right ?_
    rintro ⟨uses, k, call, present, called, done, told⟩
    refine .inl ⟨i, p, k, call, moved.present, uses, present, called, done, fun j => ?_⟩
    rw [moved.news]
    split
    · exact told
    · rfl
  | rest unchanged => exact .inl (same unchanged.stores)
  | tick | setLink | setClock => exact .inl (same rfl)
  | use store request => exact absurd rfl (managers store request)
  | @land place stray p b _ landed =>
    refine (landed.write_cases (keyed b (List.mem_of_getElem? landed.found)) before after).imp_right ?_
    exact fun ⟨uses, done⟩ => .inr ⟨place, stray, p, b, landed, uses, done⟩

/-- The row has been deleted by its owner, or collected after its time, by a call of a worker, or by one
    that a worker has given up. -/
def TakenAway (w w' : World) (n : Nat) (row : Record) : Prop :=
  ∃ i p request, w.participants[i]? = some p ∧ p.store = n
    ∧ (effectsIn (w.newsOf w' i) = [(.worker, request)]
      ∨ ∃ place b, w.Landed place ⟨i, request⟩ p b w')
    ∧ (request = .deleteOwned row.name row.owner ∧ p.manager.owner = row.owner
      ∨ ∃ now, request = .deleteExpired now ∧ row.expiration < now)

/-- What a store carries out late follows from the start of the cycle in which it was asked for, which is
    the latest that the owner had begun at an earlier moment of the run. -/
theorem Begins.adrift_dated {start : World} (begins : start.Begins) {actions : List Action}
    (run : start.run? actions = some w) {stray : Stray} (member : stray ∈ w.adrift)
    (present : w.participants[stray.participant]? = some p) : ∃ before after, actions = before ++ after
      ∧ stray.request.DatedBy p.manager.owner p.manager.settings.leaseMillis
        (start.cycleStart stray.participant before) := by
  obtain ⟨before, after, v, q, k, call, rfl, origin⟩ := begins.origin run member
  rw [run?_append, origin.run, Option.bind_some] at run
  obtain ⟨owner, settings⟩ := frame_of_run run origin.present present
  refine ⟨before, after, rfl, ?_⟩
  rw [owner, settings, ← origin.request]
  exact (begins.dated origin.run q origin.present k origin.worker).request origin.called

/-- Whatever managers do, and whatever happens to their calls and clocks: no name has two rows; an owner
    that loses the row of a name leaves the name without one, by its own deletion or by a collection
    after the time of the row; and no call of a manager touches a row of somebody else, except to
    collect one whose time was over when the cycle of the call began, nor does one that the manager has
    given up and its store carries out late. -/
theorem ownership_changes_through_absence {start w w' : World} {actions : List Action} {a : Action}
    (begins : start.Begins) (keyed : ∀ b ∈ start.stores, b.Keyed)
    (run : start.run? actions = some w) (act : w.act? a = some w')
    (managers : ∀ store request, a ≠ .use store request) :
    (∀ b ∈ w'.stores, (b.rows.map Record.name).Nodup)
      ∧ (∀ (n : Nat) (b b' : Backend) (row : Record), w.stores[n]? = some b →
        w'.stores[n]? = some b' → row ∈ b.rows →
          (∃ e, ⟨row.name, row.owner, e⟩ ∈ b'.rows)
            ∨ (∀ r ∈ b'.rows, r.name ≠ row.name) ∧ w.TakenAway w' n row)
      ∧ (∀ (i : Nat) (p : Participant) (caller : Caller) (request : Request),
        w.participants[i]? = some p → (caller, request) ∈ effectsIn (w.newsOf w' i) →
          ∀ (n : Nat) (b b' : Backend) (row : Record), w.stores[n]? = some b →
            w'.stores[n]? = some b' → row ∈ b.rows → row.owner ≠ p.manager.owner →
              row ∈ b'.rows ∨ ∃ started, start.cycleStart i actions = some started
                ∧ request = .deleteExpired started ∧ row.expiration < started)
      ∧ ∀ (place : Nat) (stray : Stray) (p : Participant) (b₀ : Backend),
        w.Landed place stray p b₀ w' → ∀ (n : Nat) (b b' : Backend) (row : Record),
          w.stores[n]? = some b → w'.stores[n]? = some b' → row ∈ b.rows → row.owner ≠ p.manager.owner →
            row ∈ b'.rows ∨ ∃ before after started, actions = before ++ after
              ∧ start.cycleStart stray.participant before = some started
              ∧ stray.request = .deleteExpired started ∧ row.expiration < started := by
  have reachable : w.Reachable := ⟨start, actions, begins, run⟩
  have keyed₀ := keyed_of_run run keyed
  have change := change_of_act? act
  have keyed₁ := change.keyed keyed₀
  have modest : ∀ p ∈ w.participants, p.manager.Modest := fun p inside =>
    reachable.manager Manager.modest_fresh (fun _ _ _ _ _ _ modest move => modest.move move) inside
  refine ⟨fun b inside => Backend.nodup_rows (keyed₁ b inside),
    fun n b b' row before after there => ?_,
    fun i p caller request present told n b b' row before after there other => ?_,
    fun place stray p b₀ landed n b b' row before after there other => ?_⟩
  · rw [Backend.mem_rows_iff (keyed₀ b (List.mem_of_getElem? before))] at there
    have rows := Backend.mem_rows_iff (keyed₁ b' (List.mem_of_getElem? after))
    rcases change.write_cases managers modest keyed₀ before after with
      same | ⟨i, p, k, call, present, uses, worker, called, done, told⟩
        | ⟨place, stray, p, b₀, landed, uses, done⟩
    · exact .inl ⟨row.expiration, by rw [rows, same, there]⟩
    · have dated := (begins.dated run p present k worker).request called
      rcases dated.kept_or_gone there with ⟨e, kept⟩ | ⟨gone, why⟩
      · exact .inl ⟨e, by rw [rows, done, kept]⟩
      · refine .inr ⟨fun r member same => ?_, i, p, call.request, present, uses, .inl ?_, why⟩
        · rw [rows, same, done, gone] at member
          cases member
        · rw [told, if_pos rfl]
    · obtain ⟨_, _, _, dated⟩ :=
        begins.adrift_dated run (List.mem_of_getElem? landed.adrift) landed.present
      rcases dated.kept_or_gone there with ⟨e, kept⟩ | ⟨gone, why⟩
      · exact .inl ⟨e, by rw [rows, done, kept]⟩
      · refine .inr ⟨fun r member same => ?_, stray.participant, p, stray.request, landed.present, uses,
          .inr ⟨place, b₀, landed⟩, why⟩
        rw [rows, same, done, gone] at member
        cases member
  · rw [Backend.mem_rows_iff (keyed₀ b (List.mem_of_getElem? before))] at there
    have rows := Backend.mem_rows_iff (keyed₁ b' (List.mem_of_getElem? after))
    rcases change.write_cases managers modest keyed₀ before after with
      same | ⟨j, q, k, call, present', uses, worker, called, done, news⟩ | ⟨_, _, _, _, landed, _⟩
    · exact .inl (by rw [rows, same, there])
    · rw [news] at told
      split at told
      · rename_i own
        subst own
        obtain rfl := Option.some.inj (present.symm.trans present')
        cases List.mem_singleton.mp told
        have dated := (begins.dated run p present k worker).request called
        rcases dated.spares other there with kept | ⟨started, known, eq, past⟩
        · exact .inl (by rw [rows, done, kept])
        · exact .inr ⟨started, known, eq, past⟩
      · cases told
    · rw [newsOf, landed.notesOf_eq, List.drop_length] at told
      cases told
  · rw [Backend.mem_rows_iff (keyed₀ b (List.mem_of_getElem? before))] at there
    have rows := Backend.mem_rows_iff (keyed₁ b' (List.mem_of_getElem? after))
    obtain ⟨earlier, later, split, dated⟩ :=
      begins.adrift_dated run (List.mem_of_getElem? landed.adrift) landed.present
    have keyed := keyed₀ b₀ (List.mem_of_getElem? landed.found)
    rcases landed.write_cases keyed before after with same | ⟨_, done⟩
    · exact .inl (by rw [rows, same, there])
    · rcases dated.spares other there with kept | ⟨started, known, eq, past⟩
      · exact .inl (by rw [rows, done, kept])
      · exact .inr ⟨earlier, later, started, split, known, eq, past⟩

/-- One manager acquires a lease and stops. The cycle of another one begins after the time of its row
    and is about to collect it. -/
def handover : List Action :=
  .start 0 :: turn 0 (.attempt 0) 4 ++ .create 0 "x" :: turn 0 .scheduler 2 ++ turn 0 .worker 9
    ++ [.stop 0, .pick ⟨0, .worker⟩, .pick ⟨0, .scheduler⟩] ++ List.replicate 7 .tick
    ++ .start 1 :: turn 1 (.attempt 1) 4 ++ .create 1 "x" :: turn 1 .worker 3

theorem ownership_changes_through_absence_handover : ∃ w w' : World, rivals.founded.Begins
    ∧ (∀ b ∈ rivals.founded.stores, b.Keyed) ∧ rivals.founded.run? handover = some w
    ∧ w.act? (.proceed ⟨1, .worker⟩) = some w'
    ∧ (∀ store request, Action.proceed ⟨1, .worker⟩ ≠ .use store request)
    ∧ w.TakenAway w' 0 ⟨"x", "a", 8⟩ ∧ rivals.founded.cycleStart 1 handover = some 9 := by
  have begins := rivals.founded_opening.begins
  have keyed := rivals.founded_opening.keyed
  obtain ⟨w, w', b, b', run, act, before, after, there, gone⟩ : ∃ (w w' : World) (b b' : Backend),
      rivals.founded.run? handover = some w ∧ w.act? (.proceed ⟨1, .worker⟩) = some w'
        ∧ w.stores[0]? = some b ∧ w'.stores[0]? = some b' ∧ ⟨"x", "a", 8⟩ ∈ b.rows ∧ b'.rows = [] :=
    ⟨_, _, _, _, rfl, rfl, rfl, rfl, .head _, rfl⟩
  obtain ⟨_, lost, _⟩ := ownership_changes_through_absence begins keyed run act nofun
  rcases lost 0 b b' _ before after there with ⟨e, kept⟩ | ⟨_, taken⟩
  · rw [gone] at kept
    cases kept
  · exact ⟨w, w', begins, keyed, run, act, nofun, taken, rfl⟩

end World

end Leasehold
