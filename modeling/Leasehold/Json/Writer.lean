import Leasehold.Record
import Leasehold.Settings

/-! # Written JSON

The compact text of the values that are persisted or configured. Inside a string only the quote,
the backslash and the control characters below U+0020 are escaped; everything else stands for
itself.
-/

namespace Leasehold.Json

/-- Lower-case hexadecimal digit of a number below sixteen. -/
def hexDigit (n : Nat) : Char :=
  if n < 10 then Char.ofNat (48 + n) else Char.ofNat (87 + n)

/-- One character as it stands inside a quoted string. -/
def escape (c : Char) : List Char :=
  if c = '"' then ['\\', '"']
  else if c = '\\' then ['\\', '\\']
  else if c = '\x08' then ['\\', 'b']
  else if c = '\t' then ['\\', 't']
  else if c = '\n' then ['\\', 'n']
  else if c = '\x0c' then ['\\', 'f']
  else if c = '\r' then ['\\', 'r']
  else if c.toNat < 32 then ['\\', 'u', '0', '0', hexDigit (c.toNat / 16), hexDigit (c.toNat % 16)]
  else [c]

def quote (s : String) : List Char := '"' :: (s.toList.flatMap escape ++ ['"'])

def natural (n : Nat) : List Char := (toString n).toList

def integer : Int → List Char
  | .ofNat n => natural n
  | .negSucc n => '-' :: natural (n + 1)

def boolean (b : Bool) : List Char := if b then "true".toList else "false".toList

/-- One member of an object: its name, a colon and the written value. -/
def member (name : String) (value : List Char) : List Char := quote name ++ ':' :: value

/-- An object with the given members, in order. -/
def object (members : List (List Char)) : List Char :=
  '{' :: ([','].intercalate members ++ ['}'])

end Leasehold.Json

namespace Leasehold

def Duration.encode (d : Duration) : List Char :=
  Json.object [Json.member "secs" (Json.natural d.seconds),
    Json.member "nanos" (Json.natural d.subsecNanos)]

def Settings.encode (s : Settings) : List Char :=
  Json.object [Json.member "lease_duration" s.leaseDuration.encode,
    Json.member "enabled" (Json.boolean s.enabled)]

def Record.encode (r : Record) : List Char :=
  Json.object [Json.member "name" (Json.quote r.name), Json.member "owner" (Json.quote r.owner),
    Json.member "expiration" (Json.integer r.expiration)]

def LeaseState.encode (s : LeaseState) : List Char := Json.quote s.text

end Leasehold
