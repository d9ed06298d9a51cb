/-! # Owner ids

A manager is told apart from every other participant by a random id: sixteen random bytes, six bits
of which are fixed to mark the id as random, written in groups of hexadecimal digits.
-/

namespace Leasehold.OwnerId

def hexDigits : List Char := "0123456789abcdef".toList

/-- The two hexadecimal digits of a byte. -/
def byteText (n : Nat) : List Char :=
  [hexDigits.getD (n / 16 % 16) '0', hexDigits.getD (n % 16) '0']

/-- Lengths of the groups, in bytes. -/
def groups : List Nat := [4, 2, 2, 2, 6]

/-- Marks sixteen bytes as a random id: version four in the seventh byte, the variant in the
    ninth. -/
def mark (bytes : List Nat) : List Nat :=
  (bytes.modify 6 fun b => b % 16 + 0x40).modify 8 fun b => b % 64 + 0x80

/-- Writes bytes in groups of the given lengths. -/
def grouped : List Nat → List Nat → List (List Char)
  | [], _ => []
  | n :: ns, bytes => (bytes.take n).flatMap byteText :: grouped ns (bytes.drop n)

/-- The id made from sixteen random bytes. -/
def ofBytes (bytes : List Nat) : String :=
  String.ofList (['-'].intercalate (grouped groups (mark bytes)))

/-- Whether a text has the form of a random id. -/
def isRandomId (text : String) : Bool :=
  let cs := text.toList
  cs.length = 36
    && (cs.zipIdx.all fun (c, i) =>
      if [8, 13, 18, 23].contains i then c = '-' else hexDigits.contains c)
    && cs[14]? = some '4'
    && (cs[19]?).any fun c => ['8', '9', 'a', 'b'].contains c

end Leasehold.OwnerId
