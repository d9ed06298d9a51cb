import Leasehold.Keyed
import Leasehold.Store.Request

/-! # A lease table inside the process

A map from lease names to who holds them and until when. It is used when leases are disabled, and
by managers of one process that share it. There is no table to create: clearing the map stands for
dropping it.
-/

namespace Leasehold

/-- Who holds a lease, and until when. -/
structure Holding where
  owner : String
  expiration : Int
  deriving Repr, DecidableEq, Inhabited

/-- A lease table inside the process, keyed by lease name. -/
structure MemoryStore where
  entries : List (String × Holding)
  deriving Repr, DecidableEq, Inhabited

namespace MemoryStore

def empty : MemoryStore := ⟨[]⟩

def size (m : MemoryStore) : Nat := m.entries.length

def find? (m : MemoryStore) (name : String) : Option Holding := m.entries.lookup name

/-- Keeps the entries that satisfy `p`. -/
def retain (m : MemoryStore) (p : String → Holding → Bool) : MemoryStore :=
  ⟨m.entries.filter fun e => p e.1 e.2⟩

/-- Writes an entry, replacing the one that the name may have. -/
def insert (m : MemoryStore) (name : String) (h : Holding) : MemoryStore :=
  ⟨if (m.find? name).isSome then m.entries.map (fun e => if e.1 = name then (name, h) else e)
    else m.entries ++ [(name, h)]⟩

/-- Writes an entry unless the name has one. -/
def insertAbsent (m : MemoryStore) (name : String) (h : Holding) : MemoryStore :=
  if (m.find? name).isSome then m else ⟨m.entries ++ [(name, h)]⟩

theorem find?_insertAbsent (m : MemoryStore) (name other : String) (h : Holding) :
    (m.insertAbsent name h).find? other
      = (m.find? other).or (if other = name then some h else none) := by
  unfold insertAbsent
  split
  · rename_i taken
    by_cases he : other = name
    · subst he
      cases hf : m.find? other <;> simp_all
    · simp [he]
  · exact Keyed.lookup_concat m.entries name other h

/-- Writes a row directly, whoever has it. -/
def put (m : MemoryStore) (r : Record) : MemoryStore := m.insert r.name ⟨r.owner, r.expiration⟩

def toRecord (e : String × Holding) : Record := ⟨e.1, e.2.owner, e.2.expiration⟩

def get? (m : MemoryStore) (name : String) : Option Record :=
  (m.find? name).map fun h => toRecord (name, h)

def toList (m : MemoryStore) : List Record := m.entries.map toRecord

/-- Drops the entries that ended before `now` and tells how many they were. -/
def deleteExpired (m : MemoryStore) (now : Int) : Nat × MemoryStore :=
  let kept := m.retain fun _ h => now ≤ h.expiration
  (m.size - kept.size, kept)

/-- Moves the end of every entry of an owner and tells how many they are. -/
def refreshOwned (m : MemoryStore) (owner : String) (expiration : Int) : Nat × MemoryStore :=
  (m.entries.countP fun e => e.2.owner = owner,
    ⟨m.entries.map fun e => if e.2.owner = owner then (e.1, ⟨e.2.owner, expiration⟩) else e⟩)

/-- Claims each name in turn unless it has an entry. -/
def claimAbsent (m : MemoryStore) (names : List String) (owner : String) (expiration : Int) :
    MemoryStore :=
  names.foldl (fun m name => m.insertAbsent name ⟨owner, expiration⟩) m

def selectOwned (m : MemoryStore) (owner : String) : List String :=
  (m.entries.filter fun e => e.2.owner = owner).map (·.1)

/-- Removes the entry of a name if this owner has it. -/
def deleteOwned (m : MemoryStore) (name owner : String) : Bool × MemoryStore :=
  match m.find? name with
  | some h => if h.owner = owner then (true, m.retain fun n _ => n ≠ name) else (false, m)
  | none => (false, m)

/-- Answers a request; never fails. `now` is the time of the store's clock. -/
def perform (m : MemoryStore) (now : Int) : Request → Reply × MemoryStore
  | .referenceTime => (.time now, m)
  | .ensureSchema => (.done, m)
  | .dropSchema => (.done, empty)
  | .deleteExpired before => let (n, m) := m.deleteExpired before; (.count n, m)
  | .refreshOwned owner expiration =>
      let (n, m) := m.refreshOwned owner expiration; (.count n, m)
  | .claimAbsent names owner expiration => (.done, m.claimAbsent names owner expiration)
  | .selectOwned owner => (.names (m.selectOwned owner), m)
  | .deleteOwned name owner => let (b, m) := m.deleteOwned name owner; (.deleted b, m)
  | .listAll => (.records m.toList, m)

end MemoryStore

end Leasehold
