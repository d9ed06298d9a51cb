import Leasehold.Manager.Note

/-! # Which log lines are written

A filter is a list of directives between commas. A directive is a level, which is meant for every
part of the program, or the name of a part with a level. The directive with the longest name that a
part begins with decides.
-/

namespace Leasehold.Agent

/-- How much is written: nothing, or everything down to a level; tracing is below every level that
    the agent uses. -/
inductive Verbosity where
  | off
  | error
  | warn
  | info
  | debug
  | trace
  deriving Repr, DecidableEq, Inhabited

namespace Verbosity

def rank : Verbosity → Nat
  | off => 0
  | error => 1
  | warn => 2
  | info => 3
  | debug => 4
  | trace => 5

def all : List Verbosity := [off, error, warn, info, debug, trace]

def name : Verbosity → String
  | off => "off"
  | error => "error"
  | warn => "warn"
  | info => "info"
  | debug => "debug"
  | trace => "trace"

/-- Reads a level by its name in any case, or by its number. -/
def parse? (text : List Char) : Option Verbosity :=
  all.find? fun v =>
    v.name.toList = text.map Char.toLower || (toString v.rank).toList = text

def covers (v : Verbosity) : Level → Bool
  | .error => 1 ≤ v.rank
  | .warn => 2 ≤ v.rank
  | .info => 3 ≤ v.rank
  | .debug => 4 ≤ v.rank

end Verbosity

/-- A level for the parts of the program whose names begin with a text. -/
structure Directive where
  part : List Char
  verbosity : Verbosity
  deriving Repr, DecidableEq, Inhabited

abbrev LogFilter := List Directive

namespace LogFilter

/-- Everything down to information. -/
def standard : LogFilter := [⟨[], .info⟩]

def isNameChar (c : Char) : Bool := c.isAlphanum || c = '_' || c = ':' || c = '-'

def directive? (text : List Char) : Option Directive :=
  match text.dropWhile (· ≠ '=') with
  | [] =>
    match Verbosity.parse? text with
    | some v => some ⟨[], v⟩
    | none => if text.all isNameChar then some ⟨text, .trace⟩ else none
  | _ :: level =>
    let part := text.takeWhile (· ≠ '=')
    if part.all isNameChar && !part.isEmpty then
      (Verbosity.parse? level).map fun v => ⟨part, v⟩
    else none

/-- The parts of a text between commas that are not empty. -/
def pieces : List Char → List Char → List (List Char)
  | piece, [] => if piece.isEmpty then [] else [piece.reverse]
  | piece, c :: r =>
    if c = ',' then (if piece.isEmpty then [] else [piece.reverse]) ++ pieces [] r
    else pieces (c :: piece) r

/-- Reads a filter. One that cannot be read counts as none given; an empty one lets only errors
    through. -/
def parse (text : Option String) : LogFilter :=
  match text with
  | none => standard
  | some text =>
    match (pieces [] text.toList).mapM directive? with
    | none => standard
    | some [] => [⟨[], .error⟩]
    | some ds => ds

/-- Whether a line of a level from a part of the program is written. -/
def admits (f : LogFilter) (part : String) (level : Level) : Bool :=
  let fitting := f.filter fun d => d.part.isPrefixOf part.toList
  let longest := fitting.foldl (fun n d => max n d.part.length) 0
  match (fitting.filter fun d => d.part.length = longest).getLast? with
  | none => false
  | some d => d.verbosity.covers level

end LogFilter

end Leasehold.Agent
