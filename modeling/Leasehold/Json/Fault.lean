/-! # What can be wrong with a JSON text -/

namespace Leasehold.Json

/-- Why a text does not give a value. -/
inductive Fault where
  /-- The text breaks the grammar. -/
  | malformed
  /-- The text is grammatical so far, but holds something else than what is wanted. -/
  | unsuitable
  /-- The text ends too early. -/
  | truncated
  deriving Repr, DecidableEq, Inhabited

/-- Takes a value off the front of a text, or finds the first fault in it. -/
abbrev Reader (α : Type) := List Char → Except Fault (α × List Char)

end Leasehold.Json
