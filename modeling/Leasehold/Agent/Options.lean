import Leasehold.Postgres.TlsMode
import Leasehold.Settings

/-! # Options of the lease agent

Options are taken from the command line in its order, then from the environment for those that are
absent, and last from their defaults. The first mistake found in that order is the one reported.
-/

namespace Leasehold.Agent

/-- What is wrong with a command line, or that help was asked for. -/
inductive UsageError where
  /-- An option that does not exist, or a value that belongs to none. -/
  | unknownArgument
  /-- An option without a value, or a value that is none of the possible ones. -/
  | invalidValue
  /-- A value that cannot be read. -/
  | valueValidation
  /-- An option given twice that may be given once. -/
  | argumentConflict
  /-- A value for an option that takes none. -/
  | tooManyValues
  | displayHelp
  deriving Repr, DecidableEq, Inhabited

def UsageError.message : UsageError → String
  | unknownArgument => "unexpected argument"
  | invalidValue => "an option lacks its value, or has one that it cannot have"
  | valueValidation => "the value of an option cannot be read"
  | argumentConflict => "an option is given more than once"
  | tooManyValues => "an option that takes no value is given one"
  | displayHelp => "help was asked for"

/-- The options that take a value, in the order in which the environment is consulted. -/
inductive Opt where
  | storeUrl
  | leaseDuration
  | leasesEnabled
  | tlsMode
  | lease
  | reportInterval
  deriving Repr, DecidableEq, Inhabited

namespace Opt

def all : List Opt := [storeUrl, leaseDuration, leasesEnabled, tlsMode, lease, reportInterval]

/-- The name after the two dashes. -/
def flag : Opt → String
  | storeUrl => "store-url"
  | leaseDuration => "lease-duration-ms"
  | leasesEnabled => "leases-enabled"
  | tlsMode => "tls-mode"
  | lease => "lease"
  | reportInterval => "report-interval-secs"

/-- The environment variable that stands in for the option. -/
def environmentName : Opt → String
  | storeUrl => "LEASE_STORE_URL"
  | leaseDuration => "LEASE_DURATION_MS"
  | leasesEnabled => "LEASES_ENABLED"
  | tlsMode => "LEASE_STORE_TLS"
  | lease => "LEASE_NAMES"
  | reportInterval => "LEASE_REPORT_INTERVAL"

def purpose : Opt → String
  | storeUrl => "where the lease table is"
  | leaseDuration => "how long a claimed lease stays valid, in milliseconds"
  | leasesEnabled => "whether leases are shared at all (true or false)"
  | tlsMode => "encryption of a server connection (disable, require or verify-full)"
  | lease => "names of the leases to hold, separated by commas"
  | reportInterval => "seconds between reports of the lease table, 0 for none"

def ofFlag? (name : List Char) : Option Opt := all.find? fun o => o.flag.toList = name

end Opt

/-- The options that have been given so far. -/
structure Given where
  storeUrl : Option String := none
  leaseDuration : Option Nat := none
  leasesEnabled : Option Bool := none
  tlsMode : Option Postgres.TlsMode := none
  leases : Option (List String) := none
  reportInterval : Option Nat := none
  deriving Repr, DecidableEq, Inhabited

/-- Reads an unsigned sixty-four bit number: decimal digits, with a plus sign before them or not. -/
def readNumber (text : String) : Except UsageError Nat :=
  let digits :=
    match text.toList with
    | '+' :: r => r
    | cs => cs
  if digits.isEmpty || digits.any (fun c => !c.isDigit) then .error .valueValidation
  else
    let n := digits.foldl (fun n c => n * 10 + (c.toNat - 48)) 0
    if n ≤ 18446744073709551615 then .ok n else .error .valueValidation

def readSwitch (text : String) : Except UsageError Bool :=
  if text = "true" then .ok true else if text = "false" then .ok false else .error .invalidValue

def readTlsMode (text : String) : Except UsageError Postgres.TlsMode :=
  match Postgres.TlsMode.parse text with
  | .ok m => .ok m
  | .error _ => .error .valueValidation

/-- The parts of a text between commas. -/
def splitCommas : List Char → List (List Char)
  | [] => [[]]
  | c :: r =>
    if c = ',' then [] :: splitCommas r
    else
      match splitCommas r with
      | [] => [[c]]
      | part :: parts => (c :: part) :: parts

namespace Given

def has (g : Given) : Opt → Bool
  | .storeUrl => g.storeUrl.isSome
  | .leaseDuration => g.leaseDuration.isSome
  | .leasesEnabled => g.leasesEnabled.isSome
  | .tlsMode => g.tlsMode.isSome
  | .lease => g.leases.isSome
  | .reportInterval => g.reportInterval.isSome

/-- Takes the value of an option. Only lease names may be given more than once. -/
def take (g : Given) (o : Opt) (text : String) : Except UsageError Given :=
  if g.has o && o ≠ .lease then .error .argumentConflict
  else
    match o with
    | .storeUrl => .ok { g with storeUrl := some text }
    | .leaseDuration => (readNumber text).map fun n => { g with leaseDuration := some n }
    | .leasesEnabled => (readSwitch text).map fun b => { g with leasesEnabled := some b }
    | .tlsMode => (readTlsMode text).map fun m => { g with tlsMode := some m }
    | .lease =>
        let names := (splitCommas text.toList).map String.ofList
        .ok { g with leases := some (g.leases.getD [] ++ names) }
    | .reportInterval => (readNumber text).map fun n => { g with reportInterval := some n }

end Given

/-- An option that is being read: its value has come, or not yet. -/
abbrev Open := Option (Opt × Option String)

/-- Finishes the option that is being read. -/
def settleOpen (g : Given) : Open → Except UsageError Given
  | none => .ok g
  | some (_, none) => .error .invalidValue
  | some (o, some text) => g.take o text

/-- Splits the name of a long option from a value attached with an equals sign. -/
def splitEquals (text : List Char) : List Char × Option (List Char) :=
  match text.dropWhile (· ≠ '=') with
  | [] => (text, none)
  | _ :: value => (text.takeWhile (· ≠ '='), some value)

/-- Reads an argument that begins with two dashes, which are taken off. -/
def readLong (text : List Char) (g : Given) (pending : Open) : Except UsageError (Given × Open) :=
  let (name, value) := splitEquals text
  if name = "help".toList then
    match value with
    | some _ => .error .tooManyValues
    | none => do
      let _ ← settleOpen g pending
      .error .displayHelp
  else
    match Opt.ofFlag? name with
    | none => .error .unknownArgument
    | some o => do
      let g ← settleOpen g pending
      match value with
      | none => .ok (g, some (o, none))
      | some v => do
        let g ← g.take o (String.ofList v)
        .ok (g, none)

/-- Reads an argument that begins with one dash, which is taken off. -/
def readShort (text : List Char) (g : Given) (pending : Open) :
    Except UsageError (Given × Open) :=
  match text with
  | 'h' :: _ => do
    let _ ← settleOpen g pending
    .error .displayHelp
  | _ => .error .unknownArgument

/-- Reads an argument that is neither: the value of the option before it. -/
def readPlain (text : String) (g : Given) : Open → Except UsageError (Given × Open)
  | some (o, none) => .ok (g, some (o, some text))
  | _ => .error .unknownArgument

/-- Reads the arguments in order. Nothing may follow a double dash. -/
def readArguments : List String → Given → Open → Except UsageError Given
  | [], g, pending => settleOpen g pending
  | a :: rest, g, pending =>
    match a.toList with
    | '-' :: '-' :: [] => if rest.isEmpty then settleOpen g pending else .error .unknownArgument
    | '-' :: '-' :: name => do
      let (g, pending) ← readLong name g pending
      readArguments rest g pending
    | '-' :: c :: name => do
      let (g, pending) ← readShort (c :: name) g pending
      readArguments rest g pending
    | _ => do
      let (g, pending) ← readPlain a g pending
      readArguments rest g pending

/-- Takes the options that are absent from the environment. -/
def readEnvironment (env : List (String × String)) : List Opt → Given → Except UsageError Given
  | [], g => .ok g
  | o :: os, g =>
    if g.has o then readEnvironment env os g
    else
      match env.lookup o.environmentName with
      | none => readEnvironment env os g
      | some text => do readEnvironment env os (← g.take o text)

structure Options where
  storeUrl : Option String
  /-- Lease duration in milliseconds. -/
  leaseDuration : Nat
  leasesEnabled : Bool
  tlsMode : Postgres.TlsMode
  /-- Names of the leases to hold. -/
  leases : List String
  /-- Seconds between reports; zero for none. -/
  reportSeconds : Nat
  deriving Repr, DecidableEq, Inhabited

namespace Options

def ofGiven (g : Given) : Options where
  storeUrl := g.storeUrl
  leaseDuration := g.leaseDuration.getD 60000
  leasesEnabled := g.leasesEnabled.getD true
  tlsMode := g.tlsMode.getD .standard
  leases := g.leases.getD []
  reportSeconds := g.reportInterval.getD 30

def parse (arguments : List String) (env : List (String × String)) : Except UsageError Options := do
  let g ← readArguments arguments {} none
  let g ← readEnvironment env Opt.all g
  .ok (ofGiven g)

def settings (o : Options) : Settings :=
  ⟨Duration.ofMillis o.leaseDuration, o.leasesEnabled⟩

def help : String :=
  "Holds named leases until it is told to stop.\n\nOptions:\n"
    ++ String.join (Opt.all.map fun o =>
      "  --" ++ o.flag ++ " (" ++ o.environmentName ++ "): " ++ o.purpose ++ "\n")

/-- Time between reports, if there are any. -/
def reportInterval (o : Options) : Option Duration :=
  if 0 < o.reportSeconds then some (Duration.ofSeconds o.reportSeconds) else none

end Options

end Leasehold.Agent
