import Leasehold.Agent.StoreUrl

/-! # Connection addresses

The part of a connection address that matters before anything is sent: whether it can be read at
all, whether what it says fits together, and what it asks about encryption. Names and values may
hold bytes written as a percent sign and two hexadecimal digits.
-/

namespace Leasehold.Postgres

inductive AddressFault where
  | unreadable
  /-- It can be read, but does not tell one way to connect. -/
  | inconsistent
  deriving Repr, DecidableEq, Inhabited

/-- What an address says about encryption. -/
inductive SslWish where
  | disable
  | prefer
  | require
  deriving Repr, DecidableEq, Inhabited

structure Address where
  /-- Number of host names and socket directories. -/
  hosts : Nat := 0
  /-- Number of numeric host addresses. -/
  hostAddresses : Nat := 0
  ports : Nat := 0
  ssl : SslWish := .prefer
  deriving Repr, DecidableEq, Inhabited

namespace Address

def hexDigit? (b : UInt8) : Option UInt8 :=
  if 48 ≤ b && b ≤ 57 then some (b - 48)
  else if 65 ≤ b && b ≤ 70 then some (b - 55)
  else if 97 ≤ b && b ≤ 102 then some (b - 87)
  else none

/-- Replaces every percent sign and two hexadecimal digits by the byte that they stand for. -/
def percentDecode : List UInt8 → List UInt8
  | b :: x :: y :: r =>
    if b = 37 then
      match hexDigit? x, hexDigit? y with
      | some h, some l => (h * 16 + l) :: percentDecode r
      | _, _ => b :: percentDecode (x :: y :: r)
    else b :: percentDecode (x :: y :: r)
  | bs => bs

def utf8Bytes (cs : List Char) : List UInt8 := (String.ofList cs).toUTF8.toList

/-- Decodes a piece of an address that must be text. -/
def decodeText (cs : List Char) : Except AddressFault String :=
  match String.fromUTF8? ⟨(percentDecode (utf8Bytes cs)).toArray⟩ with
  | some s => .ok s
  | none => .error .unreadable

/-- The text before the first character of a set, if there is one, and the text from it on. -/
def takeUntil? (stop : List Char) (cs : List Char) : Option (List Char × List Char) :=
  match cs.dropWhile (fun c => !stop.contains c) with
  | [] => none
  | rest => some (cs.takeWhile (fun c => !stop.contains c), rest)

/-- The text before the first character of a set, or all of it. -/
def takeUntilOrAll (stop : List Char) (cs : List Char) : List Char × List Char :=
  (takeUntil? stop cs).getD (cs, [])

/-- The pieces of a text between occurrences of a character. -/
def splitAt (sep : Char) : List Char → List (List Char)
  | [] => [[]]
  | c :: r =>
    if c = sep then [] :: splitAt sep r
    else
      match splitAt sep r with
      | [] => [[c]]
      | part :: parts => (c :: part) :: parts

/-- The value of a run of decimal digits that is not empty. -/
def digits? (cs : List Char) : Option Nat :=
  if cs.isEmpty || cs.any (fun c => !c.isDigit) then none
  else some (cs.foldl (fun n c => n * 10 + (c.toNat - 48)) 0)

/-- Reads a number without sign, or with a plus sign, up to a limit. -/
def natural? (most : Nat) (cs : List Char) : Option Nat :=
  let digits :=
    match cs with
    | '+' :: r => r
    | cs => cs
  (digits? digits).bind fun n => if n ≤ most then some n else none

/-- Whether a text is a signed sixty-four bit number. -/
def isSigned (cs : List Char) : Bool :=
  match cs with
  | '-' :: r => (digits? r).any fun n => n ≤ 9223372036854775808
  | cs => (natural? 9223372036854775807 cs).isSome

/-- Whether a text is a part of a numeric address of four parts. -/
def isOctet (cs : List Char) : Bool :=
  cs.length ≤ 3 && (cs.length = 1 || cs.head? ≠ some '0')
    && (digits? cs).any fun n => n ≤ 255

def isIpv4 (cs : List Char) : Bool :=
  let parts := splitAt '.' cs
  parts.length = 4 && parts.all isOctet

def isHexGroup (cs : List Char) : Bool :=
  !cs.isEmpty && cs.length ≤ 4
    && cs.all fun c => c.isDigit || ('a' ≤ c && c ≤ 'f') || ('A' ≤ c && c ≤ 'F')

/-- Number of sixteen-bit groups in a run of groups between colons; the last one may be a numeric
    address of four parts, which counts for two. -/
def groupCount? (last : Bool) : List (List Char) → Option Nat
  | [] => some 0
  | [g] => if isHexGroup g then some 1 else if last && isIpv4 g then some 2 else none
  | g :: gs => if isHexGroup g then (groupCount? last gs).map (· + 1) else none

/-- The texts before and after the first double colon. -/
def splitGap : List Char → Option (List Char × List Char)
  | ':' :: ':' :: r => some ([], r)
  | c :: r => (splitGap r).map fun (a, b) => (c :: a, b)
  | [] => none

def groupsOf (cs : List Char) : List (List Char) := if cs.isEmpty then [] else splitAt ':' cs

def isIpv6 (cs : List Char) : Bool :=
  match splitGap cs with
  | none => groupCount? true (groupsOf cs) = some 8
  | some (a, b) =>
    match groupCount? false (groupsOf a), groupCount? true (groupsOf b) with
    | some m, some n => m + n ≤ 7
    | _, _ => false

/-- Adds the ports of a list separated by commas; an empty one stands for the usual one. -/
def addPorts (a : Address) (value : List Char) : Except AddressFault Address :=
  let ports := splitAt ',' value
  if ports.all fun p => p.isEmpty || (natural? 65535 p).isSome then
    .ok { a with ports := a.ports + ports.length }
  else .error .unreadable

/-- Takes a parameter by name. -/
def addParameter (a : Address) (key : String) (value : String) : Except AddressFault Address :=
  let cs := value.toList
  let accept (ok : Bool) : Except AddressFault Address :=
    if ok then .ok a else .error .unreadable
  match key with
  | "user" | "password" | "dbname" | "options" | "application_name" => .ok a
  | "sslmode" =>
    match value with
    | "disable" => .ok { a with ssl := .disable }
    | "prefer" => .ok { a with ssl := .prefer }
    | "require" => .ok { a with ssl := .require }
    | _ => .error .unreadable
  | "sslnegotiation" => accept (value = "postgres" || value = "direct")
  | "hostaddr" =>
    let addresses := splitAt ',' cs
    if addresses.all fun x => isIpv4 x || isIpv6 x then
      .ok { a with hostAddresses := a.hostAddresses + addresses.length }
    else .error .unreadable
  | "port" => a.addPorts cs
  | "connect_timeout" | "tcp_user_timeout" | "keepalives_idle" | "keepalives_interval" =>
    accept (isSigned cs)
  | "keepalives" => accept (natural? 18446744073709551615 cs).isSome
  | "keepalives_retries" => accept (natural? 4294967295 cs).isSome
  | "target_session_attrs" =>
    accept (value = "any" || value = "read-write" || value = "read-only")
  | "channel_binding" =>
    accept (value = "disable" || value = "prefer" || value = "require")
  | "load_balance_hosts" => accept (value = "disable" || value = "random")
  | _ => .error .unreadable

/-- Takes a host, which is a name or the directory of a socket. -/
def addHost (a : Address) (host : List Char) : Except AddressFault Address := do
  let bytes := percentDecode (utf8Bytes host)
  if bytes.head? = some 47 then .ok { a with hosts := a.hosts + 1 }
  else
    let _ ← decodeText host
    .ok { a with hosts := a.hosts + 1 }

/-- Takes a host and what follows it after a colon, if there is a colon. -/
def addHostPort (a : Address) (chunk : List Char) : Except AddressFault Address := do
  let (host, ports) ←
    match chunk with
    | '[' :: r =>
      match takeUntil? [']'] r with
      | none => .error AddressFault.unreadable
      | some (host, rest) =>
        match rest.drop 1 with
        | [] => .ok (host, none)
        | ':' :: ports => .ok (host, some ports)
        | _ => .error AddressFault.unreadable
    | chunk =>
      match takeUntil? [':'] chunk with
      | none => .ok (chunk, none)
      | some (host, rest) => .ok (host, some (rest.drop 1))
  let a ← a.addHost host
  let ports ← decodeText (ports.getD "5432".toList)
  a.addPorts ports.toList

def addHostPorts : List (List Char) → Address → Except AddressFault Address
  | [], a => .ok a
  | c :: cs, a => do addHostPorts cs (← a.addHostPort c)

/-- Takes the parameters after the question mark. The fuel bounds their number. -/
def addParameters : Nat → List Char → Address → Except AddressFault Address
  | 0, _, a => .ok a
  | _ + 1, [], a => .ok a
  | fuel + 1, cs, a =>
    match takeUntil? ['='] cs with
    | none => .error .unreadable
    | some (key, rest) => do
      let key ← decodeText key
      let (value, rest) := takeUntilOrAll ['&'] (rest.drop 1)
      let a ←
        if key = "host" then a.addHost value
        else do a.addParameter key (← decodeText value)
      addParameters fuel (rest.drop 1) a

/-- Takes the user and password before the at sign and leaves the rest. -/
def dropCredentials (cs : List Char) : Except AddressFault (List Char) :=
  match takeUntil? ['@'] cs with
  | none => .ok cs
  | some (credentials, rest) => do
    let _ ← decodeText (takeUntilOrAll [':'] credentials).1
    .ok (rest.drop 1)

/-- Takes the name of the database after the slash and leaves the rest. -/
def dropPath (cs : List Char) : Except AddressFault (List Char) :=
  match cs with
  | '/' :: r => do
    let (name, rest) := takeUntilOrAll ['?'] r
    let _ ← decodeText name
    .ok rest
  | cs => .ok cs

/-- Whether hosts, numeric addresses and ports go together. -/
def isConsistent (a : Address) : Bool :=
  let hosts := if a.hostAddresses = 0 then a.hosts else a.hostAddresses
  !(a.hosts = 0 && a.hostAddresses = 0)
    && !(0 < a.hosts && 0 < a.hostAddresses && a.hosts ≠ a.hostAddresses)
    && !(1 < a.ports && a.ports ≠ hosts)

/-- Reads the address behind one of the two scheme names. -/
def parse (url : String) : Except AddressFault Address := do
  let text := url.toList
  match StoreUrl.after? "postgres://" text <|> StoreUrl.after? "postgresql://" text with
  | none => .error .unreadable
  | some text =>
    let text ← dropCredentials text
    let (hosts, text) := takeUntilOrAll ['/', '?'] text
    let a ← if hosts.isEmpty then .ok {} else addHostPorts (splitAt ',' hosts) {}
    let text ← dropPath text
    let a ←
      match text with
      | '?' :: r => addParameters (r.length + 1) r a
      | _ => .ok a
    if a.isConsistent then .ok a else .error .inconsistent

end Address

end Leasehold.Postgres
