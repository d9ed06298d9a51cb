import Leasehold.Json.Fault

/-! # Numerals in JSON

Reading a number is split in two: its grammar, and what the number is worth to a reader that wants
integers. A numeral too large for a double-precision number is refused as malformed, with the limits
that follow from keeping at most sixty-four bits of its digits.
-/

namespace Leasehold.Json

def isDigit (c : Char) : Bool := '0' ≤ c && c ≤ '9'

def digitValue (c : Char) : Nat := c.toNat - 48

/-- The parts of a number as written. -/
structure Numeral where
  negative : Bool
  /-- Digits before the point. -/
  whole : List Char
  /-- Digits after the point, if there is one. -/
  fraction : Option (List Char)
  /-- Whether the exponent is negative, and its digits. -/
  exponent : Option (Bool × List Char)
  deriving Repr, DecidableEq

namespace Numeral

/-- Reads the digits before the point: a single zero, or a run that does not start with one. -/
def readWhole (atEnd : Fault) : Reader (List Char)
  | [] => .error atEnd
  | c :: t =>
    if c = '0' then
      match t with
      | d :: _ => if isDigit d then .error .malformed else .ok ([c], t)
      | [] => .ok ([c], [])
    else if isDigit c then .ok (c :: t.takeWhile isDigit, t.dropWhile isDigit)
    else .error .malformed

/-- Reads a nonempty run of digits. -/
def readDigits (atEnd : Fault) : Reader (List Char)
  | [] => .error atEnd
  | c :: t =>
    if isDigit c then .ok (c :: t.takeWhile isDigit, t.dropWhile isDigit) else .error .malformed

def readFraction (atEnd : Fault) : Reader (Option (List Char))
  | '.' :: t => (readDigits atEnd t).map fun (ds, r) => (some ds, r)
  | t => .ok (none, t)

def readExponent (atEnd : Fault) : Reader (Option (Bool × List Char))
  | [] => .ok (none, [])
  | c :: t =>
    if c = 'e' || c = 'E' then
      match t with
      | '+' :: r => (readDigits atEnd r).map fun (ds, r) => (some (false, ds), r)
      | '-' :: r => (readDigits atEnd r).map fun (ds, r) => (some (true, ds), r)
      | r => (readDigits atEnd r).map fun (ds, r) => (some (false, ds), r)
    else .ok (none, c :: t)

/-- Reads what follows the sign. `atEnd` is the fault of a text that ends inside the number. -/
def readUnsigned (atEnd : Fault) (negative : Bool) : Reader Numeral := fun t => do
  let (whole, t) ← readWhole atEnd t
  let (fraction, t) ← readFraction atEnd t
  let (exponent, t) ← readExponent atEnd t
  .ok (⟨negative, whole, fraction, exponent⟩, t)

/-- Reads a number from its sign or first digit on. -/
def read (atEnd : Fault) : Reader Numeral
  | '-' :: t => readUnsigned atEnd true t
  | t => readUnsigned atEnd false t

/-- Largest significand that is kept exactly. -/
def significandLimit : Nat := 18446744073709551615

/-- Digits are taken while they keep the significand within its limit; answers the significand and
    the digits left over. -/
def significand (start : Nat) : List Char → Nat × List Char
  | [] => (start, [])
  | c :: r =>
    let next := start * 10 + digitValue c
    if next ≤ significandLimit then significand next r else (start, c :: r)

def valueOf (digits : List Char) : Nat := digits.foldl (fun n c => n * 10 + digitValue c) 0

/-- The number as an integer: only for one written without point and exponent that fits sixty-four
    bits, with a sign or without. Minus zero is no integer. -/
def integer? (n : Numeral) : Option Int :=
  match n.fraction, n.exponent with
  | none, none =>
    let v := valueOf n.whole
    if n.negative then
      if 0 < v && v ≤ 9223372036854775808 then some (-(v : Int)) else none
    else if v ≤ significandLimit then some v else none
  | _, _ => none

/-- Rounds to the nearest number with a significand of fifty-three bits, ties to even. -/
def roundToDouble (n : Nat) : Nat :=
  let drop := (Nat.log2 n + 1) - 53
  let unit := Nat.pow 2 drop
  let low := n % unit
  let down := n - low
  if 2 * low < unit then down
  else if unit < 2 * low then down + unit
  else if (down / unit) % 2 = 0 then down else down + unit

/-- Half a unit above the largest double: sums from here on round to infinity. -/
def doubleOverflow : Nat := Nat.pow 2 1024 - Nat.pow 2 970

/-- Largest power of ten that a double holds. -/
def largestTenPower : Nat := 308

/-- Largest exponent that is counted exactly. -/
def exponentLimit : Int := 2147483647

/-- Whether `significand * 10 ^ exponent` is too large for a double. -/
def tooLarge (significand : Nat) (exponent : Int) : Bool :=
  if exponent < 0 then false
  else if largestTenPower < exponent.toNat then significand != 0
  else
    let power := roundToDouble (Nat.pow 10 exponent.toNat)
    doubleOverflow ≤ roundToDouble significand * power

/-- The power of ten of an exponent, with the significand it belongs to; `none` if the exponent
    alone puts the number out of range. -/
def withExponent (significand : Nat) (start : Int) :
    Option (Bool × List Char) → Option (Nat × Int)
  | none => some (significand, start)
  | some (negative, digits) =>
    let e : Int := valueOf digits
    if exponentLimit < e then
      if significand != 0 && !negative then none else some (0, 0)
    else
      let total := if negative then start - e else start + e
      some (significand, max (-exponentLimit - 1) (min exponentLimit total))

/-- Whether a number is too large to be read at all. -/
def outOfRange (n : Numeral) : Bool :=
  let (kept, dropped) := significand 0 n.whole
  let (kept, start) :=
    match n.fraction with
    | none => (kept, (dropped.length : Int))
    | some digits =>
      let (more, rest) := significand kept digits
      (more, (dropped.length : Int) - ((digits.length - rest.length : Nat) : Int))
  if n.fraction.isNone && n.exponent.isNone && dropped.isEmpty then false
  else
    match withExponent kept start n.exponent with
    | none => true
    | some (s, e) => tooLarge s e

/-- Reads a number that has a value: malformed if it is too large. -/
def readInRange : Reader Numeral := fun t => do
  let (n, t) ← read .truncated t
  if n.outOfRange then .error .malformed else .ok (n, t)

end Numeral

end Leasehold.Json
