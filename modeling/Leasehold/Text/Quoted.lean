import Leasehold.Text.HiddenTable
import Leasehold.Text.CaseTable

/-! # Quoted text for people

A text between quotes in which everything that would not show is written by its number.
-/

namespace Leasehold.Text

/-- Digits of a number in base sixteen, lower case. -/
def hexText (n : Nat) : List Char := Nat.toDigits 16 n

/-- One character inside a quoted text. -/
def showChar (c : Char) : List Char :=
  if c = '\x00' then ['\\', '0']
  else if c = '\t' then ['\\', 't']
  else if c = '\r' then ['\\', 'r']
  else if c = '\n' then ['\\', 'n']
  else if c = '"' then ['\\', '"']
  else if c = '\\' then ['\\', '\\']
  else if inRanges hiddenRanges c.toNat then ['\\', 'u', '{'] ++ hexText c.toNat ++ ['}']
  else [c]

def quoted (s : String) : String :=
  String.ofList ('"' :: (s.toList.flatMap showChar ++ ['"']))

/-- A list of quoted texts between brackets. -/
def quotedList (ss : List String) : String := "[" ++ ", ".intercalate (ss.map quoted) ++ "]"

end Leasehold.Text
