import Leasehold.World.Basic

/-! # Snapshots of the lease table

A listing that is asked for on behalf of a participant and has to be answered at once: no other task
moves meanwhile, and a listing that would have to wait is given up.
-/

namespace Leasehold.World

/-- Lets one task take steps while it can. The fuel bounds the steps. -/
def rush (w : World) (t : Task) : Nat → World
  | 0 => w
  | fuel + 1 =>
    match w.stepTask? t with
    | none => w
    | some (w, _) => rush w t fuel

/-- The result of a listing, if it has come. -/
def listingResult? (id : Nat) (journal : List Entry) :
    Option (Except LeaseError (List Record)) :=
  journal.findSome? fun e =>
    match e.note with
    | .listingEnded id' result => if id' = id then some result else none
    | _ => none

/-- Gives up a listing. -/
def cancelListing (w : World) (i id : Nat) : World :=
  (w.changeManager i fun m =>
    let calls := (m.listings.filter fun l => l.id = id).filterMap (·.call)
    (m.endListing id, calls.map fun c => Note.cancelled (.listing id) c.request)).1

/-- The table as a participant sees it, if that takes no time. A listing takes two steps: it is
    asked for, and it is answered. -/
def snapshot (w : World) (i : Nat) : Option (Except LeaseError (List Record)) × World :=
  let (id, w) := w.list i
  let w := w.rush ⟨i, .listing id⟩ 2
  match listingResult? id w.journal with
  | none => (none, w.cancelListing i id)
  | some result => (some result, w)

end Leasehold.World
