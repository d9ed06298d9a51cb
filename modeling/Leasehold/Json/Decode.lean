import Leasehold.Json.Shape
import Leasehold.Json.Writer

/-! # Reading settings, rows and states back

The inverse of writing: each type of the library that has a JSON text can be read from it. Unknown
members of settings and rows are passed over; a duration has no room for them.
-/

namespace Leasehold

open Json

namespace Duration

/-- Largest number of whole seconds in a duration. -/
def mostSeconds : Nat := 18446744073709551615

def shape : Shape (Option Int × Option Int) Duration where
  blank := (none, none)
  allow name acc :=
    if name = "secs" then once acc.1
    else if name = "nanos" then once acc.2
    else .error .unsuitable
  member name acc t :=
    if name = "secs" then
      (readInteger 0 18446744073709551615 t).map fun (v, t) => ((some v, acc.2), t)
    else (readInteger 0 4294967295 t).map fun (v, t) => ((acc.1, some v), t)
  order := ["secs", "nanos"]
  finish acc := do
    let secs ← required acc.1
    let nanos ← required acc.2
    let d := ofParts secs.toNat nanos.toNat
    if d.seconds ≤ mostSeconds then .ok d else .error .unsuitable

end Duration

namespace Settings

def shape : Shape (Option Duration × Option Bool) Settings where
  blank := (none, none)
  allow name acc :=
    if name = "lease_duration" then once acc.1
    else if name = "enabled" then once acc.2
    else .ok ()
  member name acc t :=
    if name = "lease_duration" then
      (Duration.shape.read t).map fun (v, t) => ((some v, acc.2), t)
    else if name = "enabled" then (readBool t).map fun (v, t) => ((acc.1, some v), t)
    else (skipValue t).map fun (_, t) => (acc, t)
  order := ["lease_duration", "enabled"]
  finish acc := do
    let d ← required acc.1
    let e ← required acc.2
    .ok ⟨d, e⟩

/-- Reads settings from a text that holds nothing else. -/
def decode (t : List Char) : Except Fault Settings := whole shape.read t

end Settings

namespace Record

def shape : Shape (Option String × Option String × Option Int) Record where
  blank := (none, none, none)
  allow name acc :=
    if name = "name" then once acc.1
    else if name = "owner" then once acc.2.1
    else if name = "expiration" then once acc.2.2
    else .ok ()
  member name acc t :=
    if name = "name" then (readString t).map fun (v, t) => ((some v, acc.2.1, acc.2.2), t)
    else if name = "owner" then (readString t).map fun (v, t) => ((acc.1, some v, acc.2.2), t)
    else if name = "expiration" then
      (readInteger Reading.min Reading.max t).map fun (v, t) => ((acc.1, acc.2.1, some v), t)
    else (skipValue t).map fun (_, t) => (acc, t)
  order := ["name", "owner", "expiration"]
  finish acc := do
    let n ← required acc.1
    let o ← required acc.2.1
    let e ← required acc.2.2
    .ok ⟨n, o, e⟩

def decode (t : List Char) : Except Fault Record := whole shape.read t

end Record

namespace LeaseState

def ofName : String → Except Fault LeaseState
  | "acquired" => .ok .acquired
  | "unacquired" => .ok .unacquired
  | _ => .error .unsuitable

/-- Reads the state that stands as the only member of an object, after the opening brace. -/
def readTagged : Reader LeaseState := fun t => do
  let (name, t) ← readString t
  let state ← ofName name
  let (_, t) ← colon t
  let (_, t) ← readNull t
  match skipBlanks t with
  | [] => .error .truncated
  | c :: t => if c = '}' then .ok (state, t) else .error .malformed

/-- A state is its name, or an object with its name as the only member and null as value. -/
def read : Reader LeaseState := fun t =>
  match skipBlanks t with
  | [] => .error .truncated
  | c :: t =>
    if c = '{' then readTagged t
    else if c = '"' then do
      let (cs, t) ← stringRest t
      let state ← ofName (String.ofList cs)
      .ok (state, t)
    else .error .malformed

def decode (t : List Char) : Except Fault LeaseState := whole read t

end LeaseState

end Leasehold
