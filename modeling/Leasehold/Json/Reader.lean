import Leasehold.Json.Numeral

/-! # Reading JSON

Readers for the pieces of a JSON text: blanks, keywords, strings, numbers, and whole values that
nobody wants. The first fault in reading order is the one that is reported.
-/

namespace Leasehold.Json

def isBlank (c : Char) : Bool := c = ' ' || c = '\n' || c = '\t' || c = '\r'

def skipBlanks (t : List Char) : List Char := t.dropWhile isBlank

/-- Reads exactly these characters. -/
def keyword : List Char → Reader Unit
  | [], t => .ok ((), t)
  | _ :: _, [] => .error .truncated
  | k :: ks, c :: t => if c = k then keyword ks t else .error .malformed

/-! ## Strings -/

def hexValue? (c : Char) : Option Nat :=
  if '0' ≤ c && c ≤ '9' then some (c.toNat - 48)
  else if 'a' ≤ c && c ≤ 'f' then some (c.toNat - 87)
  else if 'A' ≤ c && c ≤ 'F' then some (c.toNat - 55)
  else none

/-- Number of bytes of a text in UTF-8. -/
def byteCount (t : List Char) : Nat := t.foldl (fun n c => n + c.utf8Size) 0

/-- Reads the four hexadecimal digits of a code unit. With fewer than four bytes left the text is
    truncated, whatever they are. -/
def codeUnit : Reader Nat
  | a :: b :: c :: d :: t =>
    match hexValue? a, hexValue? b, hexValue? c, hexValue? d with
    | some a, some b, some c, some d => .ok (a * 4096 + b * 256 + c * 16 + d, t)
    | _, _, _, _ => .error .malformed
  | t => .error (if byteCount t < 4 then .truncated else .malformed)

/-- Reads the second half of a surrogate pair, escape included. -/
def lowSurrogate (high : Nat) : Reader Char
  | [] => .error .truncated
  | c :: t =>
    if c ≠ '\\' then .error .malformed
    else
      match t with
      | [] => .error .truncated
      | c :: t =>
        if c ≠ 'u' then .error .malformed
        else do
          let (low, t) ← codeUnit t
          if low < 0xDC00 || 0xDFFF < low then .error .malformed
          else .ok (Char.ofNat (0x10000 + (high - 0xD800) * 1024 + (low - 0xDC00)), t)

/-- Reads an escaped character by number: one code unit, or a surrogate pair. -/
def numbered : Reader Char := fun t => do
  let (n, t) ← codeUnit t
  if 0xDC00 ≤ n && n ≤ 0xDFFF then .error .malformed
  else if 0xD800 ≤ n && n ≤ 0xDBFF then lowSurrogate n t
  else .ok (Char.ofNat n, t)

/-- The character that a one-letter escape stands for. -/
def shortEscape? (c : Char) : Option Char :=
  if c = '"' then some '"'
  else if c = '\\' then some '\\'
  else if c = '/' then some '/'
  else if c = 'b' then some '\x08'
  else if c = 'f' then some '\x0c'
  else if c = 'n' then some '\n'
  else if c = 'r' then some '\r'
  else if c = 't' then some '\t'
  else none

/-- Reads what follows a backslash; `number` reads an escape by number. -/
def escaped (number : Reader Char) : Reader Char
  | [] => .error .truncated
  | c :: t =>
    match shortEscape? c with
    | some d => .ok (d, t)
    | none => if c = 'u' then number t else .error .malformed

/-- Reads a string after its opening quote. The fuel bounds the number of characters. -/
def stringBody (number : Reader Char) : Nat → Reader (List Char)
  | 0, _ => .error .truncated
  | _ + 1, [] => .error .truncated
  | fuel + 1, c :: t =>
    if c = '"' then .ok ([], t)
    else if c = '\\' then do
      let (d, t) ← escaped number t
      let (ds, t) ← stringBody number fuel t
      .ok (d :: ds, t)
    else if c.toNat < 32 then .error .malformed
    else do
      let (ds, t) ← stringBody number fuel t
      .ok (c :: ds, t)

/-- Reads a string after its opening quote. -/
def stringRest : Reader (List Char) := fun t => stringBody numbered (t.length + 1) t

/-- Passes over a string after its opening quote. Surrogates need not pair up here. -/
def skipString : Reader Unit := fun t => do
  let (_, t) ← stringBody (fun t => (codeUnit t).map fun (_, t) => (' ', t)) (t.length + 1) t
  .ok ((), t)

/-! ## Values that nobody wants -/

/-- What may come next inside a value that is passed over. -/
inductive Expected where
  | value
  /-- The first item of a bracket, or its end. -/
  | firstItem
  /-- A comma or the end of a bracket. -/
  | afterItem
  deriving Repr, DecidableEq

def colon : Reader Unit := fun t =>
  match skipBlanks t with
  | [] => .error .truncated
  | c :: t => if c = ':' then .ok ((), t) else .error .malformed

/-- Passes over the name of a member and its colon. -/
def skipKey : Reader Unit := fun t =>
  match skipBlanks t with
  | [] => .error .truncated
  | c :: t =>
    if c = '"' then do
      let (_, t) ← skipString t
      colon t
    else .error .malformed

/-- The bracket that closes this one. -/
def closing (opening : Char) : Char := if opening = '[' then ']' else '}'

/-- What is known after one step over an unwanted value: what to expect, the open brackets from the
    innermost on, and the text left. -/
abbrev Skipping := Expected × List Char × List Char

/-- After the comma or at the first item of a bracket: a name, if the bracket is an object. -/
def skipItemStart (opening : Char) (brackets t : List Char) : Except Fault Skipping :=
  if opening = '{' then do
    let (_, t) ← skipKey t
    .ok (.value, brackets, t)
  else .ok (.value, brackets, t)

/-- One step over a value that nobody wants. -/
def skipStep : Skipping → Except Fault Skipping
  | (.value, brackets, t) =>
    match skipBlanks t with
    | [] => .error .truncated
    | c :: t =>
      if c = 'n' then (keyword "ull".toList t).map fun (_, t) => (.afterItem, brackets, t)
      else if c = 't' then (keyword "rue".toList t).map fun (_, t) => (.afterItem, brackets, t)
      else if c = 'f' then (keyword "alse".toList t).map fun (_, t) => (.afterItem, brackets, t)
      else if c = '-' || isDigit c then
        (Numeral.read .malformed (c :: t)).map fun (_, t) => (.afterItem, brackets, t)
      else if c = '"' then (skipString t).map fun (_, t) => (.afterItem, brackets, t)
      else if c = '[' || c = '{' then .ok (.firstItem, c :: brackets, t)
      else .error .malformed
  | (.firstItem, [], t) => .ok (.afterItem, [], t)
  | (.firstItem, b :: brackets, t) =>
    match skipBlanks t with
    | [] => .error .truncated
    | c :: t =>
      if c = closing b then .ok (.afterItem, brackets, t)
      else skipItemStart b (b :: brackets) (c :: t)
  | (.afterItem, [], t) => .ok (.afterItem, [], t)
  | (.afterItem, b :: brackets, t) =>
    match skipBlanks t with
    | [] => .error .truncated
    | c :: t =>
      if c = ',' then skipItemStart b (b :: brackets) t
      else if c = closing b then .ok (.afterItem, brackets, t)
      else .error .malformed

/-- Steps until the value is passed. -/
def skipLoop : Nat → Skipping → Except Fault (List Char)
  | _, (.afterItem, [], t) => .ok t
  | 0, _ => .error .truncated
  | fuel + 1, s => do skipLoop fuel (← skipStep s)

/-- Passes over one value, however deep it is nested. -/
def skipValue : Reader Unit := fun t => do
  let t ← skipLoop (2 * t.length + 2) (.value, [], t)
  .ok ((), t)

/-! ## Values of a wanted kind -/

/-- The fault of a value that is not of the wanted kind: the first one inside it if it is a scalar,
    and otherwise that it is unsuitable. -/
def wrongKind : List Char → Fault
  | [] => .malformed
  | c :: t =>
    let faultOf {α : Type} (r : Except Fault (α × List Char)) : Fault :=
      match r with
      | .ok _ => .unsuitable
      | .error f => f
    if c = 'n' then faultOf (keyword "ull".toList t)
    else if c = 't' then faultOf (keyword "rue".toList t)
    else if c = 'f' then faultOf (keyword "alse".toList t)
    else if c = '-' || isDigit c then faultOf (Numeral.readInRange (c :: t))
    else if c = '"' then faultOf (stringRest t)
    else if c = '[' || c = '{' then .unsuitable
    else .malformed

def readString : Reader String := fun t =>
  match skipBlanks t with
  | [] => .error .truncated
  | c :: t =>
    if c = '"' then do
      let (cs, t) ← stringRest t
      .ok (String.ofList cs, t)
    else .error (wrongKind (c :: t))

def readBool : Reader Bool := fun t =>
  match skipBlanks t with
  | [] => .error .truncated
  | c :: t =>
    if c = 't' then (keyword "rue".toList t).map fun (_, t) => (true, t)
    else if c = 'f' then (keyword "alse".toList t).map fun (_, t) => (false, t)
    else .error (wrongKind (c :: t))

def readNull : Reader Unit := fun t =>
  match skipBlanks t with
  | [] => .error .truncated
  | c :: t => if c = 'n' then keyword "ull".toList t else .error (wrongKind (c :: t))

/-- Reads an integer between `low` and `high`. -/
def readInteger (low high : Int) : Reader Int := fun t =>
  match skipBlanks t with
  | [] => .error .truncated
  | c :: t =>
    if c = '-' || isDigit c then do
      let (n, t) ← Numeral.readInRange (c :: t)
      match n.integer? with
      | none => .error .unsuitable
      | some v => if low ≤ v && v ≤ high then .ok (v, t) else .error .unsuitable
    else .error (wrongKind (c :: t))

end Leasehold.Json
