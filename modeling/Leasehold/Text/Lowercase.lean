import Leasehold.Text.CaseTable

/-! # Lower case

Lower case by the full rules of Unicode: a character may become two, and a capital sigma becomes a
final sigma at the end of a word.
-/

namespace Leasehold.Text

def isCased (c : Char) : Bool := inRanges casedRanges c.toNat

def isCaseIgnorable (c : Char) : Bool := inRanges ignorableRanges c.toNat

/-- Lower-case form of one character, whatever stands around it. -/
def lowerChar (c : Char) : List Char :=
  if c = 'İ' then ['i', Char.ofNat 0x307]
  else
    match lowerRuns.find? (·.contains c.toNat) with
    | some r => [Char.ofNat ((c.toNat : Int) + r.distance).toNat]
    | none => [c]

/-- Whether the first character that is not passed over has case. -/
def casedNext (cs : List Char) : Bool :=
  match cs.dropWhile isCaseIgnorable with
  | [] => false
  | c :: _ => isCased c

/-- Lower case of a text whose characters before, from the last one back, are given. -/
def lowercaseAfter : List Char → List Char → List Char
  | _, [] => []
  | before, c :: after =>
    (if c = 'Σ' then [if casedNext before && !casedNext after then 'ς' else 'σ'] else lowerChar c)
      ++ lowercaseAfter (c :: before) after

def lowercase (s : String) : String := String.ofList (lowercaseAfter [] s.toList)

end Leasehold.Text
