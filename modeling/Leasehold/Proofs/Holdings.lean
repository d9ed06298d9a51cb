import Leasehold.Store.Backend
import Mathlib

/-! # The table as a map from names

Every store, whichever kind it is, holds at most one row for each name. `Request.effect` tells what
a request makes of the map from names to holdings; `Backend.held_perform` says that both kinds of
store do exactly that when they answer, and `Backend.perform_error` that they do nothing when they
fail.
-/

namespace Leasehold

namespace Keyed

variable {α : Type}

/-- With one value for each key, filtering decides key by key. -/
theorem lookup_filter {l : List (String × α)} (nodup : (l.map (·.1)).Nodup)
    (p : String × α → Bool) (k : String) :
    (l.filter p).lookup k = (l.lookup k).filter fun v => p (k, v) := by
  induction l with
  | nil => rfl
  | cons e l ih =>
    obtain ⟨a, v⟩ := e
    simp only [List.map_cons, List.nodup_cons] at nodup
    have rest := ih nodup.2
    by_cases hk : k = a
    · subst hk
      have gone : l.lookup k = none := by
        rw [← Option.not_isSome_iff_eq_none, lookup_isSome_iff]
        exact nodup.1
      rw [gone] at rest
      cases hp : p (k, v) <;> simp [Option.filter_some, hp, rest]
    · have hka : (k == a) = false := by simpa using hk
      cases hp : p (a, v) <;> simp [List.lookup_cons, hp, hka, rest]

theorem lookup_of_mem {l : List (String × α)} (nodup : (l.map (·.1)).Nodup) {k : String} {v : α}
    (h : (k, v) ∈ l) : l.lookup k = some v := by
  induction l with
  | nil => simp at h
  | cons e l ih =>
    obtain ⟨a, w⟩ := e
    simp only [List.map_cons, List.nodup_cons] at nodup
    rcases List.mem_cons.mp h with same | later
    · cases same
      simp
    · have hne : k ≠ a := by
        rintro rfl
        exact nodup.1 (List.mem_map_of_mem later)
      have hka : (k == a) = false := by simpa using hne
      rw [List.lookup_cons, hka]
      exact ih nodup.2 later

end Keyed

/-- What is held under each name. -/
abbrev Holdings := String → Option Holding

/-- What a request that is carried out makes of the holdings. -/
def Request.effect : Request → Holdings → Holdings
  | .dropSchema, _ => fun _ => none
  | .deleteExpired now, held => fun name => (held name).filter fun h => now ≤ h.expiration
  | .refreshOwned owner expiration, held => fun name =>
      (held name).map fun h => if h.owner = owner then ⟨owner, expiration⟩ else h
  | .claimAbsent names owner expiration, held => fun name =>
      (held name).or (if name ∈ names then some ⟨owner, expiration⟩ else none)
  | .deleteOwned name owner, held => fun other =>
      (held other).filter fun h => !(other = name && h.owner = owner)
  | .referenceTime, held | .ensureSchema, held | .selectOwned _, held | .listAll, held => held

namespace MemoryStore

/-- No name has two entries. -/
def Keyed (m : MemoryStore) : Prop := (m.entries.map (·.1)).Nodup

theorem keyed_empty : empty.Keyed := List.nodup_nil

theorem keyed_retain {m : MemoryStore} (keyed : m.Keyed) (p : String → Holding → Bool) :
    (m.retain p).Keyed := by
  simp only [Keyed, retain] at keyed ⊢
  exact keyed.sublist (List.filter_sublist.map _)

theorem find?_retain {m : MemoryStore} (keyed : m.Keyed) (p : String → Holding → Bool)
    (name : String) : (m.retain p).find? name = (m.find? name).filter (p name) :=
  Keyed.lookup_filter keyed (fun e => p e.1 e.2) name

theorem keyed_refreshOwned {m : MemoryStore} (keyed : m.Keyed) (owner : String)
    (expiration : Int) : (m.refreshOwned owner expiration).2.Keyed := by
  simp only [Keyed, refreshOwned, List.map_map] at keyed ⊢
  convert keyed using 2
  funext e
  simp only [Function.comp_apply]
  split <;> rfl

theorem find?_refreshOwned (m : MemoryStore) (owner : String) (expiration : Int) (name : String) :
    (m.refreshOwned owner expiration).2.find? name
      = (m.find? name).map fun h => if h.owner = owner then ⟨owner, expiration⟩ else h := by
  have step : (fun e : String × Holding =>
        if e.2.owner = owner then (e.1, Holding.mk e.2.owner expiration) else e)
      = fun e => (e.1, if e.2.owner = owner then ⟨owner, expiration⟩ else e.2) := by
    funext e
    split
    · rename_i own
      rw [own]
    · rfl
  simp only [find?, refreshOwned, step]
  exact Keyed.lookup_map_value m.entries
    (fun _ h => if h.owner = owner then Holding.mk owner expiration else h) name

theorem keyed_insertAbsent {m : MemoryStore} (keyed : m.Keyed) (name : String) (h : Holding) :
    (m.insertAbsent name h).Keyed := by
  unfold insertAbsent
  split
  · exact keyed
  · rename_i free
    have absent : name ∉ m.entries.map (·.1) := by
      rw [← Keyed.lookup_isSome_iff]
      exact free
    simp only [MemoryStore.Keyed, List.map_append, List.map_cons, List.map_nil,
      List.nodup_append, List.nodup_cons, List.not_mem_nil, not_false_eq_true, List.nodup_nil,
      and_self, List.mem_cons, or_false, true_and] at keyed ⊢
    refine ⟨keyed, ?_⟩
    rintro a ha b rfl rfl
    exact absent ha

theorem keyed_claimAbsent {m : MemoryStore} (keyed : m.Keyed) (names : List String)
    (owner : String) (expiration : Int) : (m.claimAbsent names owner expiration).Keyed := by
  induction names generalizing m with
  | nil => exact keyed
  | cons name names ih => exact ih (keyed_insertAbsent keyed name ⟨owner, expiration⟩)

theorem find?_claimAbsent (m : MemoryStore) (names : List String) (owner : String)
    (expiration : Int) (name : String) :
    (m.claimAbsent names owner expiration).find? name
      = (m.find? name).or (if name ∈ names then some ⟨owner, expiration⟩ else none) := by
  induction names generalizing m with
  | nil => simp [claimAbsent]
  | cons first names ih =>
    have tail := ih (m.insertAbsent first ⟨owner, expiration⟩)
    simp only [claimAbsent, List.foldl_cons] at tail ⊢
    rw [tail, find?_insertAbsent, Option.or_assoc]
    by_cases hf : name = first
    · simp [hf]
    · simp [hf]

theorem keyed_deleteOwned {m : MemoryStore} (keyed : m.Keyed) (name owner : String) :
    (m.deleteOwned name owner).2.Keyed := by
  unfold deleteOwned
  split
  · split
    · exact keyed_retain keyed _
    · exact keyed
  · exact keyed

theorem find?_deleteOwned {m : MemoryStore} (keyed : m.Keyed) (name owner other : String) :
    (m.deleteOwned name owner).2.find? other
      = (m.find? other).filter fun h => !(other = name && h.owner = owner) := by
  unfold deleteOwned
  by_cases same : other = name
  · subst same
    cases found : m.find? other with
    | none => simp [found]
    | some h =>
      by_cases own : h.owner = owner
      · simp [own, find?_retain keyed, found, Option.filter_some]
      · simp [own, found, Option.filter_some]
  · have kept : (m.find? other).filter (fun h => !(decide (other = name) && h.owner = owner))
        = m.find? other := by
      cases m.find? other <;> simp [same, Option.filter_some]
    rw [kept]
    cases found : m.find? name with
    | none => rfl
    | some h =>
      by_cases own : h.owner = owner
      · cases other_ : m.find? other <;>
          simp [own, find?_retain keyed, same, other_, Option.filter_some]
      · simp [own]

theorem keyed_perform {m : MemoryStore} (keyed : m.Keyed) (now : Int) (r : Request) :
    (m.perform now r).2.Keyed := by
  cases r with
  | referenceTime | ensureSchema | selectOwned | listAll => exact keyed
  | dropSchema => exact keyed_empty
  | deleteExpired before => exact keyed_retain keyed _
  | refreshOwned owner expiration => exact keyed_refreshOwned keyed owner expiration
  | claimAbsent names owner expiration => exact keyed_claimAbsent keyed names owner expiration
  | deleteOwned name owner => exact keyed_deleteOwned keyed name owner

theorem find?_perform {m : MemoryStore} (keyed : m.Keyed) (now : Int) (r : Request) :
    (m.perform now r).2.find? = r.effect m.find? := by
  funext name
  cases r with
  | referenceTime | ensureSchema | selectOwned | listAll | dropSchema => rfl
  | deleteExpired before => exact find?_retain keyed _ name
  | refreshOwned owner expiration => exact find?_refreshOwned m owner expiration name
  | claimAbsent names owner expiration => exact find?_claimAbsent m names owner expiration name
  | deleteOwned n owner => exact find?_deleteOwned keyed n owner name

theorem mem_selectOwned {m : MemoryStore} (keyed : m.Keyed) (owner name : String) :
    name ∈ m.selectOwned owner ↔ ∃ e, m.find? name = some ⟨owner, e⟩ := by
  constructor
  · intro member
    obtain ⟨⟨n, h⟩, found, rfl⟩ := List.mem_map.mp member
    obtain ⟨inside, own⟩ := List.mem_filter.mp found
    obtain rfl : h.owner = owner := by simpa using own
    exact ⟨h.expiration, Keyed.lookup_of_mem keyed inside⟩
  · rintro ⟨e, found⟩
    refine List.mem_map.mpr ⟨(name, ⟨owner, e⟩), List.mem_filter.mpr ⟨?_, ?_⟩, rfl⟩
    · exact Keyed.mem_of_lookup found
    · simp

end MemoryStore

namespace Table

/-- A table of rows as a table inside the process. -/
def asMemory (t : Table) : MemoryStore := ⟨t.rows.map fun r => (r.name, ⟨r.owner, r.expiration⟩)⟩

theorem rows_eq_toList (t : Table) : t.rows = t.asMemory.toList := by
  simp [asMemory, MemoryStore.toList, MemoryStore.toRecord, Function.comp_def]

theorem asMemory_insertOrIgnore (t : Table) (r : Record) :
    (t.insertOrIgnore r).asMemory = t.asMemory.insertAbsent r.name ⟨r.owner, r.expiration⟩ := by
  have taken : (t.asMemory.find? r.name).isSome ↔ t.hasKey r.name = true := by
    rw [MemoryStore.find?, Keyed.lookup_isSome_iff]
    simp [asMemory, hasKey]
  unfold insertOrIgnore MemoryStore.insertAbsent
  by_cases key : t.hasKey r.name = true
  · simp only [key, if_true, taken.mpr key]
  · rw [if_neg key, if_neg (mt taken.mp key)]
    simp [asMemory]

theorem asMemory_claim (t : Table) (names : List String) (owner : String) (expiration : Int) :
    (SqliteDatabase.claim t names owner expiration).asMemory
      = t.asMemory.claimAbsent names owner expiration := by
  induction names generalizing t with
  | nil => rfl
  | cons name names ih =>
    have tail := ih (t.insertOrIgnore ⟨name, owner, expiration⟩)
    rw [asMemory_insertOrIgnore] at tail
    exact tail

theorem asMemory_deleteWhere (t : Table) (p : Record → Bool) :
    (t.deleteWhere p).2.asMemory
      = t.asMemory.retain fun name h => !p ⟨name, h.owner, h.expiration⟩ := by
  simp [deleteWhere, asMemory, MemoryStore.retain, List.filter_map, Function.comp_def]

theorem asMemory_updateWhere (t : Table) (owner : String) (expiration : Int) :
    (t.updateWhere (fun r => r.owner = owner) fun r => { r with expiration }).2.asMemory
      = (t.asMemory.refreshOwned owner expiration).2 := by
  simp only [updateWhere, asMemory, MemoryStore.refreshOwned, List.map_map,
    MemoryStore.mk.injEq, List.map_inj_left, Function.comp_apply, decide_eq_true_eq]
  intro r _
  split <;> rfl

/-- With one row for each name, the rows of a name and an owner are the row that the name has, if
    the owner has it. -/
theorem mem_rows_iff {t : Table} (keyed : t.asMemory.Keyed) (r : Record) :
    r ∈ t.rows ↔ t.asMemory.find? r.name = some ⟨r.owner, r.expiration⟩ := by
  constructor
  · intro member
    exact Keyed.lookup_of_mem keyed (List.mem_map_of_mem (f := fun r : Record =>
      (r.name, Holding.mk r.owner r.expiration)) member)
  · intro found
    obtain ⟨r', member, same⟩ := List.mem_map.mp (Keyed.mem_of_lookup found)
    obtain ⟨name, owner, expiration⟩ := r
    obtain ⟨name', owner', expiration'⟩ := r'
    simp only [Prod.mk.injEq, Holding.mk.injEq] at same
    obtain ⟨rfl, rfl, rfl⟩ := same
    exact member

/-- A row is deleted by name and owner just as in a table inside the process. -/
theorem deleteOwned_asMemory {t : Table} (keyed : t.asMemory.Keyed) (name owner : String) :
    let deletion := t.deleteWhere fun r => r.name = name && r.owner = owner
    (decide (0 < deletion.1), deletion.2.asMemory) = t.asMemory.deleteOwned name owner := by
  intro deletion
  have rest : deletion.2.asMemory
      = t.asMemory.retain fun n h => !(n = name && h.owner = owner) := asMemory_deleteWhere t _
  have any : decide (0 < deletion.1) = true ↔ ∃ e, t.asMemory.find? name = some ⟨owner, e⟩ := by
    simp only [deletion, deleteWhere, decide_eq_true_eq, List.length_pos_iff_exists_mem,
      List.mem_filter, Bool.and_eq_true]
    constructor
    · rintro ⟨r, member, rfl, rfl⟩
      exact ⟨r.expiration, (mem_rows_iff keyed r).mp member⟩
    · rintro ⟨e, found⟩
      exact ⟨⟨name, owner, e⟩, (mem_rows_iff keyed ⟨name, owner, e⟩).mpr found, rfl, rfl⟩
  have only {e : String × Holding} (member : e ∈ t.asMemory.entries) (same : e.1 = name) :
      t.asMemory.find? name = some e.2 :=
    Keyed.lookup_of_mem keyed (same ▸ member)
  unfold MemoryStore.deleteOwned
  cases found : t.asMemory.find? name with
  | none =>
    have kept : deletion.2.asMemory = t.asMemory := by
      rw [rest, MemoryStore.retain, List.filter_eq_self.mpr]
      intro e member
      have other : e.1 ≠ name := fun same => by simp [only member same] at found
      simp [other]
    have nothing : decide (0 < deletion.1) = false := by
      rw [← Bool.not_eq_true, any, found]
      simp
    rw [kept, nothing]
  | some h =>
    by_cases own : h.owner = owner
    · have gone : deletion.2.asMemory = t.asMemory.retain fun n _ => n ≠ name := by
        rw [rest, MemoryStore.retain, MemoryStore.retain, MemoryStore.mk.injEq]
        refine List.filter_congr fun e member => ?_
        by_cases same : e.1 = name
        · have value : e.2 = h := by
            rw [only member same] at found
            exact Option.some.inj found
          simp [same, value, own]
        · simp [same]
      have something : decide (0 < deletion.1) = true := any.mpr ⟨h.expiration, by rw [found, ← own]⟩
      simp only [own, if_true, gone, something]
    · have kept : deletion.2.asMemory = t.asMemory := by
        rw [rest, MemoryStore.retain, List.filter_eq_self.mpr]
        intro e member
        by_cases same : e.1 = name
        · have value : e.2 = h := by
            rw [only member same] at found
            exact Option.some.inj found
          simp [value, own]
        · simp [same]
      have nothing : decide (0 < deletion.1) = false := by
        rw [← Bool.not_eq_true, any, found]
        rintro ⟨e, he⟩
        cases he
        exact own rfl
      simp only [own, if_false, kept, nothing]

theorem deleteExpired_asMemory (t : Table) (before : Int) :
    let deletion := t.deleteWhere fun r => r.expiration < before
    (deletion.1, deletion.2.asMemory) = t.asMemory.deleteExpired before := by
  intro deletion
  have kept : deletion.2.asMemory = t.asMemory.retain fun _ h => before ≤ h.expiration := by
    rw [show deletion.2.asMemory = _ from asMemory_deleteWhere t _]
    congr 1
    funext name h
    rw [← decide_not, decide_eq_decide]
    exact Int.not_lt
  have counts := List.length_eq_length_filter_add (l := t.rows) fun r => r.expiration < before
  have size : t.asMemory.size = t.rows.length := by simp [MemoryStore.size, asMemory]
  have left : deletion.2.asMemory.size = (t.rows.filter fun r => !(r.expiration < before)).length := by
    simp [deletion, deleteWhere, MemoryStore.size, asMemory]
  have count : deletion.1 = t.asMemory.size - deletion.2.asMemory.size := by
    rw [size, left]
    simp only [deletion, deleteWhere]
    omega
  rw [kept] at count ⊢
  exact Prod.ext count rfl

/-- The statements of a request do to a table what the request does inside the process. -/
theorem onTable_asMemory {t : Table} (keyed : t.asMemory.Keyed) (now : Int) {r : Request}
    (keeps : r ≠ .dropSchema) :
    (SqliteDatabase.onTable t now r).1 = (t.asMemory.perform now r).1
      ∧ (SqliteDatabase.onTable t now r).2.asMemory = (t.asMemory.perform now r).2 := by
  cases r with
  | referenceTime | ensureSchema => exact ⟨rfl, rfl⟩
  | dropSchema => exact absurd rfl keeps
  | deleteExpired before =>
    have same := deleteExpired_asMemory t before
    exact ⟨congrArg Reply.count (congrArg Prod.fst same), congrArg Prod.snd same⟩
  | refreshOwned owner expiration =>
    refine ⟨?_, asMemory_updateWhere t owner expiration⟩
    simp [SqliteDatabase.onTable, MemoryStore.perform, updateWhere, MemoryStore.refreshOwned,
      asMemory, List.countP_eq_length_filter, List.filter_map, Function.comp_def]
  | claimAbsent names owner expiration => exact ⟨rfl, asMemory_claim t names owner expiration⟩
  | selectOwned owner =>
    refine ⟨?_, rfl⟩
    simp [SqliteDatabase.onTable, MemoryStore.perform, selectWhere, MemoryStore.selectOwned,
      asMemory, List.filter_map, Function.comp_def]
  | deleteOwned name owner =>
    have same := deleteOwned_asMemory keyed name owner
    exact ⟨congrArg Reply.deleted (congrArg Prod.fst same), congrArg Prod.snd same⟩
  | listAll =>
    refine ⟨?_, rfl⟩
    simp [SqliteDatabase.onTable, MemoryStore.perform, selectWhere, ← rows_eq_toList]

end Table

namespace Backend

/-- The rows of a store as a table inside the process. -/
def asMemory : Backend → MemoryStore
  | memory m => m
  | sqlite d => (d.table.map Table.asMemory).getD .empty

/-- What a store holds under each name. -/
def held (b : Backend) : Holdings := b.asMemory.find?

/-- No name has two rows. -/
def Keyed (b : Backend) : Prop := b.asMemory.Keyed

/-- Whether a store can carry out every request: a database needs its table. -/
def isReady : Backend → Bool
  | memory _ => true
  | sqlite d => d.table.isSome

theorem rows_eq_toList (b : Backend) : b.rows = b.asMemory.toList := by
  cases b with
  | memory m => rfl
  | sqlite d =>
    cases table : d.table with
    | none => simp [rows, asMemory, table, MemoryStore.toList, MemoryStore.empty]
    | some t => simp [rows, asMemory, table, ← Table.rows_eq_toList]

theorem mem_rows_iff {b : Backend} (keyed : b.Keyed) (r : Record) :
    r ∈ b.rows ↔ b.held r.name = some ⟨r.owner, r.expiration⟩ := by
  rw [rows_eq_toList]
  constructor
  · intro member
    obtain ⟨⟨name, h⟩, inside, rfl⟩ := List.mem_map.mp member
    exact Keyed.lookup_of_mem keyed inside
  · intro found
    exact List.mem_map.mpr ⟨(r.name, ⟨r.owner, r.expiration⟩), Keyed.mem_of_lookup found, rfl⟩

/-- A store that answers does what a table inside the process does. -/
theorem perform_asMemory {b : Backend} (keyed : b.Keyed) {now : Int} {r : Request} {reply : Reply}
    (answered : (b.perform now r).1 = .ok reply) :
    reply = (b.asMemory.perform now r).1
      ∧ (b.perform now r).2.asMemory = (b.asMemory.perform now r).2 := by
  cases b with
  | memory m => exact ⟨(Except.ok.inj answered).symm, rfl⟩
  | sqlite d =>
    obtain ⟨table⟩ := d
    cases table with
    | none =>
      cases r with
      | referenceTime | ensureSchema | dropSchema => exact ⟨(Except.ok.inj answered).symm, rfl⟩
      | _ => simp [perform, SqliteDatabase.perform] at answered
    | some t =>
      have same (keeps : r ≠ .dropSchema) := Table.onTable_asMemory keyed now keeps
      cases r with
      | referenceTime | ensureSchema | dropSchema => exact ⟨(Except.ok.inj answered).symm, rfl⟩
      | _ =>
        have same := same (by simp)
        exact ⟨(Except.ok.inj answered).symm.trans same.1, same.2⟩

theorem perform_error {b : Backend} {now : Int} {r : Request} {e : LeaseError}
    (failed : (b.perform now r).1 = .error e) : (b.perform now r).2 = b := by
  cases b with
  | memory m => simp [perform] at failed
  | sqlite d =>
    obtain ⟨table⟩ := d
    cases table with
    | none =>
      cases r with
      | referenceTime | ensureSchema | dropSchema =>
        simp [perform, SqliteDatabase.perform] at failed
      | _ => rfl
    | some t => cases r <;> simp [perform, SqliteDatabase.perform] at failed

theorem perform_ok {b : Backend} (ready : b.isReady = true) (now : Int) (r : Request) :
    ∃ reply, (b.perform now r).1 = .ok reply := by
  cases b with
  | memory m => exact ⟨_, rfl⟩
  | sqlite d =>
    obtain ⟨table⟩ := d
    cases table with
    | none => simp [isReady] at ready
    | some t => cases r <;> exact ⟨_, rfl⟩

theorem isReady_perform {b : Backend} (ready : b.isReady = true) (now : Int) {r : Request}
    (keeps : r ≠ .dropSchema) : (b.perform now r).2.isReady = true := by
  cases b with
  | memory m => rfl
  | sqlite d =>
    obtain ⟨table⟩ := d
    cases table with
    | none => simp [isReady] at ready
    | some t =>
      cases r with
      | dropSchema => exact absurd rfl keeps
      | _ => rfl

theorem isReady_ensureSchema (b : Backend) (now : Int) :
    (b.perform now .ensureSchema).2.isReady = true := by
  cases b <;> rfl

theorem keyed_perform {b : Backend} (keyed : b.Keyed) (now : Int) (r : Request) :
    (b.perform now r).2.Keyed := by
  cases result : (b.perform now r).1 with
  | ok reply =>
    unfold Keyed
    rw [(perform_asMemory keyed result).2]
    exact MemoryStore.keyed_perform keyed now r
  | error e =>
    rw [perform_error result]
    exact keyed

theorem held_perform {b : Backend} (keyed : b.Keyed) {now : Int} {r : Request} {reply : Reply}
    (answered : (b.perform now r).1 = .ok reply) : (b.perform now r).2.held = r.effect b.held := by
  unfold held
  rw [(perform_asMemory keyed answered).2]
  exact MemoryStore.find?_perform keyed now r

theorem mem_nameList_selectOwned {b : Backend} (keyed : b.Keyed) {now : Int} {owner : String}
    {reply : Reply} (answered : (b.perform now (.selectOwned owner)).1 = .ok reply)
    (name : String) : name ∈ reply.nameList ↔ ∃ e, b.held name = some ⟨owner, e⟩ := by
  rw [(perform_asMemory keyed answered).1]
  exact MemoryStore.mem_selectOwned keyed owner name

end Backend

end Leasehold
