import Leasehold.Json.Reader

/-! # Reading values with named members

A value with members may be written as an object, its members in any order, or as an array of
exactly its members in order. A missing or repeated member and an array that is too short are
unsuitable; an array that is too long is malformed.
-/

namespace Leasehold.Json

/-- How to read a value of type `α` from its members, collected in a `σ`. -/
structure Shape (σ α : Type) where
  blank : σ
  /-- Whether a member of this name may come now; asked when its name has been read. -/
  allow : String → σ → Except Fault Unit
  /-- Reads the value of the named member. -/
  member : String → σ → Reader σ
  /-- The members in the order of the array form. -/
  order : List String
  /-- The value, once all members have been read. -/
  finish : σ → Except Fault α

namespace Shape

variable {σ α : Type}

/-- Looks for the name of the next member: `none` at the closing brace, which is left. -/
def nextName (first : Bool) : Reader (Option String) := fun t =>
  match skipBlanks t with
  | [] => .error .truncated
  | c :: t =>
    if c = '}' then .ok (none, c :: t)
    else if first then
      if c = '"' then (stringRest t).map fun (cs, t) => (some (String.ofList cs), t)
      else .error .malformed
    else if c = ',' then
      match skipBlanks t with
      | [] => .error .truncated
      | c :: t =>
        if c = '"' then (stringRest t).map fun (cs, t) => (some (String.ofList cs), t)
        else .error .malformed
    else .error .malformed

/-- Reads the members of an object up to its closing brace. The fuel bounds their number. -/
def members (s : Shape σ α) : Nat → Bool → σ → Reader σ
  | 0, _, _, _ => .error .truncated
  | fuel + 1, first, acc, t => do
    match ← nextName first t with
    | (none, t) => .ok (acc, t)
    | (some name, t) =>
      s.allow name acc
      let (_, t) ← colon t
      let (acc, t) ← s.member name acc t
      s.members fuel false acc t

/-- Reads the elements of an array, one for each of the names. -/
def elements (s : Shape σ α) : List String → Bool → σ → Reader σ
  | [], _, acc, t => .ok (acc, t)
  | name :: names, first, acc, t => do
    match skipBlanks t with
    | [] => .error .truncated
    | c :: t =>
      if c = ']' then .error .unsuitable
      else if first then do
        let (acc, t) ← s.member name acc (c :: t)
        s.elements names false acc t
      else if c = ',' then
        match skipBlanks t with
        | [] => .error .truncated
        | c :: t =>
          if c = ']' then .error .malformed
          else do
            let (acc, t) ← s.member name acc (c :: t)
            s.elements names false acc t
      else .error .malformed

/-- Reads the bracket that ends an array. -/
def endArray : Reader Unit := fun t =>
  match skipBlanks t with
  | [] => .error .truncated
  | c :: t => if c = ']' then .ok ((), t) else .error .malformed

/-- Reads a value in either of its forms. -/
def read (s : Shape σ α) : Reader α := fun t =>
  match skipBlanks t with
  | [] => .error .truncated
  | c :: t =>
    if c = '{' then do
      let (acc, t) ← s.members (t.length + 1) true s.blank t
      let v ← s.finish acc
      .ok (v, t.drop 1)
    else if c = '[' then do
      let (acc, t) ← s.elements s.order true s.blank t
      let v ← s.finish acc
      let (_, t) ← endArray t
      .ok (v, t)
    else .error (wrongKind (c :: t))

end Shape

/-- A text that holds exactly one value. -/
def whole {α : Type} (reader : Reader α) (t : List Char) : Except Fault α := do
  let (v, t) ← reader t
  match skipBlanks t with
  | [] => .ok v
  | _ :: _ => .error .malformed

/-- A member that has been read, or the fault that it is missing. -/
def required {α : Type} : Option α → Except Fault α
  | some v => .ok v
  | none => .error .unsuitable

/-- A member that must not have been read before. -/
def once {α : Type} : Option α → Except Fault Unit
  | some _ => .error .unsuitable
  | none => .ok ()

end Leasehold.Json
