import Leasehold.Json.Decode

/-! # Written values are read back

What is written for settings, for a row and for a state of a handle is read as the same value, so no two
values have the same text. A value that has been read, from whichever form of its text, fits into what
can be written: reading and writing it again gives it back.

Each piece of a text is taken by its reader off the front of whatever text follows (`Reader.Takes`); the
pieces are put together along the members of a shape.
-/

namespace Leasehold

namespace Json

variable {α β σ : Type}

/-- The reader takes this text off the front and finds the value in it, if what comes next cannot
    belong to the text. -/
def Reader.Takes (reader : Reader α) (text : List Char) (v : α) (ends : List Char → Prop) : Prop :=
  ∀ rest, ends rest → reader (text ++ rest) = .ok (v, rest)

/-- A text that shows its own end. -/
def closed (_ : List Char) : Prop := True

theorem ok_bind (v : α) (f : α → Except Fault β) : (Except.ok v >>= f) = f v := (rfl)

theorem bind_ok {r : Except Fault α} {f : α → Except Fault β} {b : β} (h : (r >>= f) = .ok b) :
    ∃ a, r = .ok a ∧ f a = .ok b := by
  cases r with
  | ok a => exact ⟨a, rfl, h⟩
  | error fault => cases h

theorem map_ok {r : Except Fault α} {f : α → β} {b : β} (h : r.map f = .ok b) :
    ∃ a, r = .ok a ∧ f a = b := by
  cases r with
  | ok a => exact ⟨a, rfl, by injection h⟩
  | error fault => cases h

/-! ## Strings -/

theorem hexValue?_hexDigit (n : Nat) (small : n < 16) : hexValue? (hexDigit n) = some n := by
  revert n
  decide

theorem stringBody_backslash {number : Reader Char} {c : Char} {t r : List Char}
    (read : escaped number t = .ok (c, r)) (fuel : Nat) :
    stringBody number (fuel + 1) ('\\' :: t)
      = (stringBody number fuel r).map fun (cs, r) => (c :: cs, r) := by
  have other : ¬ '\\' = '"' := by decide
  simp only [stringBody, other, if_false, if_true, read, ok_bind]
  cases stringBody number fuel r <;> rfl

theorem codeUnit_hexDigit {n : Nat} (small : n < 256) (t : List Char) :
    codeUnit ('0' :: '0' :: hexDigit (n / 16) :: hexDigit (n % 16) :: t) = .ok (n, t) := by
  have zero : hexValue? '0' = some 0 := rfl
  have high := hexValue?_hexDigit (n / 16) (by omega)
  have low := hexValue?_hexDigit (n % 16) (by omega)
  have value : 0 * 4096 + 0 * 256 + n / 16 * 16 + n % 16 = n := by omega
  simp only [codeUnit, zero, high, low, value]

theorem escaped_control {c : Char} (control : c.toNat < 32) (t : List Char) :
    escaped numbered ('u' :: '0' :: '0' :: hexDigit (c.toNat / 16) :: hexDigit (c.toNat % 16) :: t)
      = .ok (c, t) := by
  have long : shortEscape? 'u' = none := rfl
  have unit := codeUnit_hexDigit (n := c.toNat) (by omega) t
  have notLow : ¬ 0xDC00 ≤ c.toNat := by omega
  have notHigh : ¬ 0xD800 ≤ c.toNat := by omega
  simp [escaped, long, numbered, unit, ok_bind, notLow, notHigh, Char.ofNat_toNat]

/-- Whatever is written for a character is read as that character. -/
theorem stringBody_escape (c : Char) (fuel : Nat) (t : List Char) :
    stringBody numbered (fuel + 1) (escape c ++ t)
      = (stringBody numbered fuel t).map fun (cs, r) => (c :: cs, r) := by
  unfold escape
  iterate 7
    split
    · subst c; exact stringBody_backslash rfl fuel
  split
  · rename_i control
    exact stringBody_backslash (escaped_control control t) fuel
  · rename_i quote backslash _ _ _ _ _ plain
    simp only [List.cons_append, List.nil_append, stringBody, quote, backslash, plain, if_false]
    cases stringBody numbered fuel t <;> rfl

theorem length_le_flatMap_escape (cs : List Char) : cs.length ≤ (cs.flatMap escape).length := by
  induction cs with
  | nil => simp
  | cons c cs ih =>
    have one : 1 ≤ (escape c).length := by unfold escape; grind
    simp only [List.flatMap_cons, List.length_append, List.length_cons]
    omega

theorem stringBody_flatMap_escape (cs : List Char) {fuel : Nat} (enough : cs.length < fuel)
    (rest : List Char) : stringBody numbered fuel (cs.flatMap escape ++ '"' :: rest) = .ok (cs, rest) := by
  induction cs generalizing fuel with
  | nil =>
    obtain ⟨fuel, rfl⟩ := Nat.exists_eq_add_one.mpr enough
    rfl
  | cons c cs ih =>
    obtain ⟨fuel, rfl⟩ := Nat.exists_eq_add_one.mpr (Nat.zero_lt_of_lt enough)
    rw [List.flatMap_cons, List.append_assoc, stringBody_escape, ih (by simpa using enough)]
    rfl

theorem stringRest_flatMap_escape (s : String) (rest : List Char) :
    stringRest (s.toList.flatMap escape ++ ['"'] ++ rest) = .ok (s.toList, rest) := by
  have enough := length_le_flatMap_escape s.toList
  rw [List.append_assoc, List.singleton_append, stringRest]
  apply stringBody_flatMap_escape
  simp only [List.length_append]
  omega

theorem takes_readString (s : String) : Reader.Takes readString (quote s) s closed := by
  intro rest _
  have front : skipBlanks (quote s ++ rest)
      = '"' :: (s.toList.flatMap escape ++ ['"'] ++ rest) := rfl
  simp only [readString, front, if_true, stringRest_flatMap_escape, ok_bind, String.ofList_toList]

/-! ## Numbers -/

/-- The text goes on with something that no number goes on with. -/
def endsNumber (rest : List Char) : Prop :=
  ∀ c t, rest = c :: t → isDigit c = false ∧ c ≠ '.' ∧ c ≠ 'e' ∧ c ≠ 'E'

theorem natural_eq (n : Nat) : natural n = Nat.toDigits 10 n := Nat.toList_repr

theorem isDigit_of_mem_natural {n : Nat} {c : Char} (member : c ∈ natural n) : isDigit c = true := by
  rw [natural_eq] at member
  have digit : c.isDigit = true := Nat.isDigit_of_mem_toDigits (by decide) (by decide) member
  simpa [isDigit, Char.isDigit, Char.le_def] using digit

theorem valueOf_natural (n : Nat) : Numeral.valueOf (natural n) = n := by
  have value := Nat.ofDigitChars_toDigits (b := 10) (n := n) (by decide) (by decide)
  rw [natural_eq, Numeral.valueOf]
  refine Eq.trans ?_ value
  simp only [Nat.ofDigitChars, digitValue]
  congr 1
  funext sum c
  rw [Nat.mul_comm]
  rfl

theorem natural_head {n : Nat} (pos : 0 < n) : ∃ c t, natural n = c :: t ∧ c ≠ '0' := by
  simp only [natural_eq]
  induction n using Nat.strongRecOn with
  | ind n ih =>
    by_cases one : n < 10
    · have digit : ∀ k < 10, 0 < k → Nat.digitChar k ≠ '0' := by decide
      exact ⟨Nat.digitChar n, [], Nat.toDigits_of_lt_base one, digit n one pos⟩
    · obtain ⟨c, t, text, head⟩ := ih (n / 10) (by omega) (by omega)
      rw [Nat.toDigits_eq_if (by decide), if_neg one, text]
      exact ⟨c, t ++ [Nat.digitChar (n % 10)], rfl, head⟩

theorem takeWhile_isDigit {rest : List Char} (ends : endsNumber rest) : rest.takeWhile isDigit = [] := by
  cases rest with
  | nil => rfl
  | cons c t => simp [(ends c t rfl).1]

theorem dropWhile_isDigit {rest : List Char} (ends : endsNumber rest) :
    rest.dropWhile isDigit = rest := by
  cases rest with
  | nil => rfl
  | cons c t => simp [(ends c t rfl).1]

theorem takes_readWhole (f : Fault) (n : Nat) :
    Reader.Takes (Numeral.readWhole f) (natural n) (natural n) endsNumber := by
  intro rest ends
  obtain rfl | pos := Nat.eq_zero_or_pos n
  · cases rest with
    | nil => rfl
    | cons c t =>
      have noDigit := (ends c t rfl).1
      simp [natural_eq, Numeral.readWhole, noDigit]
  · obtain ⟨c, t, text, head⟩ := natural_head pos
    have digits : ∀ d ∈ c :: t, isDigit d = true := fun d member =>
      isDigit_of_mem_natural (n := n) (text ▸ member)
    have first := digits c List.mem_cons_self
    have others : ∀ d ∈ t, isDigit d = true := fun d member => digits d (List.mem_cons_of_mem c member)
    simp only [text, List.cons_append, Numeral.readWhole, head, if_false, first, if_true,
      List.takeWhile_append_of_pos others, List.dropWhile_append_of_pos others,
      takeWhile_isDigit ends, dropWhile_isDigit ends, List.append_nil]

theorem takes_readUnsigned (f : Fault) (negative : Bool) (n : Nat) :
    Reader.Takes (Numeral.readUnsigned f negative) (natural n) ⟨negative, natural n, none, none⟩
      endsNumber := by
  intro rest ends
  have whole := takes_readWhole f n rest ends
  have fraction : Numeral.readFraction f rest = .ok (none, rest) := by
    unfold Numeral.readFraction
    split
    · rename_i t
      exact absurd rfl (ends '.' t rfl).2.1
    · rfl
  have exponent : Numeral.readExponent f rest = .ok (none, rest) := by
    cases rest with
    | nil => rfl
    | cons c t =>
      obtain ⟨-, -, small, large⟩ := ends c t rfl
      simp [Numeral.readExponent, small, large]
  simp only [Numeral.readUnsigned, whole, ok_bind, fraction, exponent]

theorem le_foldl_digits (digits : List Char) (start : Nat) :
    start ≤ digits.foldl (fun n c => n * 10 + digitValue c) start := by
  induction digits generalizing start with
  | nil => simp
  | cons c digits ih =>
    have step := ih (start * 10 + digitValue c)
    simp only [List.foldl_cons]
    omega

theorem significand_of_le (digits : List Char) (start : Nat)
    (small : digits.foldl (fun n c => n * 10 + digitValue c) start ≤ Numeral.significandLimit) :
    (Numeral.significand start digits).2 = [] := by
  induction digits generalizing start with
  | nil => rfl
  | cons c digits ih =>
    have next : start * 10 + digitValue c ≤ Numeral.significandLimit :=
      Nat.le_trans (le_foldl_digits digits _) small
    simp only [Numeral.significand, next, if_true]
    exact ih _ small

theorem not_outOfRange_natural {n : Nat} (small : n ≤ Numeral.significandLimit) (negative : Bool) :
    Numeral.outOfRange ⟨negative, natural n, none, none⟩ = false := by
  have kept := significand_of_le (natural n) 0 (by rw [← valueOf_natural n] at small; exact small)
  simp [Numeral.outOfRange, kept]

/-- The parts of an integer as it is written. -/
def numeral : Int → Numeral
  | .ofNat n => ⟨false, natural n, none, none⟩
  | .negSucc n => ⟨true, natural (n + 1), none, none⟩

/-- What a reader of integers accepts with a sign or without: sixty-four bits. -/
def Written (v : Int) : Prop := Reading.min ≤ v ∧ v ≤ Numeral.significandLimit

theorem integer?_numeral {v : Int} (written : Written v) : (numeral v).integer? = some v := by
  obtain ⟨low, high⟩ := written
  cases v with
  | ofNat n =>
    have small : n ≤ Numeral.significandLimit := by simpa using high
    simp [numeral, Numeral.integer?, valueOf_natural, small]
  | negSucc n =>
    have small : n + 1 ≤ 9223372036854775808 := by
      simp only [Reading.min] at low
      omega
    simp only [numeral, Numeral.integer?, valueOf_natural, Nat.zero_lt_succ, small, decide_true,
      Bool.and_self, if_true]
    rfl

theorem not_outOfRange_numeral {v : Int} (written : Written v) : (numeral v).outOfRange = false := by
  obtain ⟨low, high⟩ := written
  cases v with
  | ofNat n => exact not_outOfRange_natural (by simpa using high) false
  | negSucc n =>
    simp only [Reading.min] at low
    exact not_outOfRange_natural (by simp only [Numeral.significandLimit]; omega) true

theorem integer_head (v : Int) : ∃ c t, integer v = c :: t ∧ (c = '-' ∨ isDigit c = true) := by
  cases v with
  | negSucc n => exact ⟨'-', natural (n + 1), rfl, .inl rfl⟩
  | ofNat n =>
    cases text : natural n with
    | nil => exact absurd (natural_eq n ▸ text) Nat.toDigits_ne_nil
    | cons c t =>
      have digit := isDigit_of_mem_natural (n := n) (text ▸ List.mem_cons_self)
      exact ⟨c, t, text, .inr digit⟩

theorem takes_readNumeral (f : Fault) (v : Int) :
    Reader.Takes (Numeral.read f) (integer v) (numeral v) endsNumber := by
  intro rest ends
  cases v with
  | negSucc n => exact takes_readUnsigned f true (n + 1) rest ends
  | ofNat n =>
    have unsigned := takes_readUnsigned f false n rest ends
    obtain ⟨c, t, text, head⟩ := integer_head (.ofNat n)
    change Numeral.read f (natural n ++ rest) = .ok (⟨false, natural n, none, none⟩, rest)
    simp only [integer] at text
    rw [text] at unsigned ⊢
    have digit := isDigit_of_mem_natural (n := n) (text ▸ List.mem_cons_self)
    have noMinus : c ≠ '-' := by
      intro minus
      exact absurd (minus ▸ digit) (by decide)
    simpa [Numeral.read, noMinus] using unsigned

theorem isBlank_of_isDigit {c : Char} (digit : isDigit c = true) : isBlank c = false := by
  cases blank : isBlank c with
  | false => rfl
  | true =>
    simp only [isBlank, Bool.or_eq_true, decide_eq_true_eq] at blank
    obtain ((rfl | rfl) | rfl) | rfl := blank <;> exact absurd digit (by decide)

theorem takes_readInteger {low high v : Int} (above : low ≤ v) (below : v ≤ high)
    (written : Written v) : Reader.Takes (readInteger low high) (integer v) v endsNumber := by
  intro rest ends
  have read := takes_readNumeral .truncated v rest ends
  obtain ⟨c, t, text, head⟩ := integer_head v
  rw [text] at read ⊢
  have notBlank : isBlank c = false := by
    cases head with
    | inl minus => rw [minus]; rfl
    | inr digit => exact isBlank_of_isDigit digit
  simp only [List.cons_append] at read ⊢
  simp [readInteger, skipBlanks, notBlank, head, Numeral.readInRange, read, ok_bind,
    not_outOfRange_numeral written, integer?_numeral written, above, below]

theorem takes_natural (low high : Int) (n : Nat) (above : low ≤ n) (below : (n : Int) ≤ high)
    (small : n ≤ Numeral.significandLimit) :
    Reader.Takes (readInteger low high) (natural n) (n : Int) endsNumber :=
  have least : Reading.min ≤ (n : Int) := by simp only [Reading.min]; omega
  takes_readInteger above below ⟨least, by exact_mod_cast small⟩

theorem takes_readBool (b : Bool) : Reader.Takes readBool (boolean b) b closed := by
  intro rest _
  cases b <;> rfl

/-! ## Members -/

theorem Reader.Takes.map {reader : Reader α} {text : List Char} {v : α} {ends : List Char → Prop}
    (takes : reader.Takes text v ends) (f : α → β) :
    Reader.Takes (fun t => (reader t).map fun (v, t) => (f v, t)) text (f v) ends := by
  intro rest now
  simp [takes rest now, Except.map]

theorem Reader.Takes.weaken {reader : Reader α} {text : List Char} {v : α}
    (takes : reader.Takes text v closed) (ends : List Char → Prop) : reader.Takes text v ends :=
  fun rest _ => takes rest trivial

namespace Shape

/-- These written members, read one after the other, lead from what has been collected so far to this. -/
inductive Fills (s : Shape σ α) : σ → List (List Char) → σ → Prop where
  | nil (acc : σ) : Fills s acc [] acc
  | cons {name : String} {value : List Char} {ms : List (List Char)} {acc next last : σ}
      (allowed : s.allow name acc = .ok ())
      (takes : Reader.Takes (s.member name acc) value next endsNumber)
      (others : Fills s next ms last) : Fills s acc (Json.member name value :: ms) last

variable {s : Shape σ α}

theorem endsNumber_comma (t : List Char) : endsNumber (',' :: t) := by
  rintro c r ⟨rfl, rfl⟩
  decide

theorem endsNumber_brace (t : List Char) : endsNumber ('}' :: t) := by
  rintro c r ⟨rfl, rfl⟩
  decide

theorem endsNumber_members (ms : List (List Char)) (rest : List Char) :
    endsNumber (ms.flatMap (',' :: ·) ++ '}' :: rest) := by
  cases ms with
  | nil => exact endsNumber_brace rest
  | cons m ms => exact endsNumber_comma _

theorem members_cons (first : Bool) (fuel : Nat) {name : String} {value : List Char} {acc next : σ}
    {rest : List Char} (allowed : s.allow name acc = .ok ())
    (takes : Reader.Takes (s.member name acc) value next endsNumber) (ends : endsNumber rest) :
    s.members (fuel + 1) first acc
        ((if first then [] else [',']) ++ Json.member name value ++ rest)
      = s.members fuel false next rest := by
  have valued := takes rest ends
  have separated : colon (':' :: value ++ rest) = .ok ((), value ++ rest) := rfl
  have found : nextName first ((if first then [] else [',']) ++ Json.member name value ++ rest)
      = .ok (some name, ':' :: value ++ rest) := by
    have named := stringRest_flatMap_escape name (':' :: value ++ rest)
    cases first <;>
      simp_all [nextName, Json.member, quote, skipBlanks, isBlank, Except.map]
  simp only [members, found, ok_bind, allowed, separated, valued]

theorem members_nil (first : Bool) (fuel : Nat) (acc : σ) (rest : List Char) :
    s.members (fuel + 1) first acc ('}' :: rest) = .ok (acc, '}' :: rest) := rfl

theorem Fills.members_rest {acc last : σ} {ms : List (List Char)} (fills : s.Fills acc ms last)
    {fuel : Nat} (enough : ms.length < fuel) (rest : List Char) :
    s.members fuel false acc (ms.flatMap (',' :: ·) ++ '}' :: rest) = .ok (last, '}' :: rest) := by
  induction fills generalizing fuel with
  | nil acc =>
    obtain ⟨fuel, rfl⟩ := Nat.exists_eq_add_one.mpr enough
    exact members_nil false fuel acc rest
  | @cons name value ms acc next last allowed takes others ih =>
    obtain ⟨fuel, rfl⟩ := Nat.exists_eq_add_one.mpr (Nat.zero_lt_of_lt enough)
    have one := members_cons false fuel allowed takes (endsNumber_members ms rest)
    have more := ih (by simpa using enough)
    simpa using one.trans more

theorem intercalate_comma (m : List Char) (ms : List (List Char)) :
    [','].intercalate (m :: ms) = m ++ ms.flatMap (',' :: ·) := by
  induction ms generalizing m with
  | nil => simp
  | cons next ms ih => simpa using ih next

theorem length_le_commas (ms : List (List Char)) : ms.length ≤ (ms.flatMap (',' :: ·)).length := by
  induction ms with
  | nil => simp
  | cons m ms ih =>
    simp only [List.flatMap_cons, List.length_append, List.length_cons]
    omega

theorem length_le_intercalate (ms : List (List Char)) :
    ms.length ≤ ([','].intercalate ms).length + 1 := by
  cases ms with
  | nil => simp
  | cons m ms =>
    have commas := length_le_commas ms
    rw [intercalate_comma, List.length_append, List.length_cons]
    omega

theorem Fills.members {acc last : σ} {ms : List (List Char)} (fills : s.Fills acc ms last)
    {fuel : Nat} (enough : ms.length < fuel) (rest : List Char) :
    s.members fuel true acc ([','].intercalate ms ++ '}' :: rest) = .ok (last, '}' :: rest) := by
  obtain ⟨fuel, rfl⟩ := Nat.exists_eq_add_one.mpr (Nat.zero_lt_of_lt enough)
  cases fills with
  | nil => exact members_nil true fuel acc rest
  | @cons name value ms _ next _ allowed takes others =>
    have one := members_cons true fuel allowed takes (endsNumber_members ms rest)
    have few : ms.length < fuel := by simpa using enough
    have more := others.members_rest few rest
    simpa [intercalate_comma] using one.trans more

theorem Fills.takes (last : σ) {ms : List (List Char)} {v : α} (fills : s.Fills s.blank ms last)
    (finish : s.finish last = .ok v) : Reader.Takes s.read (object ms) v closed := by
  intro rest _
  have length := length_le_intercalate ms
  have front : skipBlanks (object ms ++ rest) = '{' :: ([','].intercalate ms ++ '}' :: rest) := by
    rw [object, List.cons_append, List.append_assoc, List.singleton_append]
    rfl
  have enough : ms.length < ([','].intercalate ms ++ '}' :: rest).length + 1 := by
    simp only [List.length_append, List.length_cons]
    omega
  have read := fills.members enough rest
  simp only [Shape.read, front, if_true, read, ok_bind, finish, List.drop_one, List.tail_cons]

/-! ## What a value was made of -/

section

variable {Keep : σ → Prop}
  (keeps : ∀ {name acc t acc' t'}, Keep acc → s.member name acc t = .ok (acc', t') → Keep acc')

include keeps

theorem members_keep {fuel : Nat} {first : Bool} {acc last : σ} {t t' : List Char} (kept : Keep acc)
    (read : s.members fuel first acc t = .ok (last, t')) : Keep last := by
  induction fuel generalizing first acc t with
  | zero => cases read
  | succ fuel ih =>
    obtain ⟨⟨name, r⟩, -, read⟩ := bind_ok read
    cases name with
    | none => cases read; exact kept
    | some name =>
      obtain ⟨_, _, read⟩ := bind_ok read
      obtain ⟨⟨_, afterColon⟩, _, read⟩ := bind_ok read
      obtain ⟨⟨next, afterMember⟩, taken, read⟩ := bind_ok read
      exact ih (keeps kept taken) read

theorem elements_keep {names : List String} {first : Bool} {acc last : σ} {t t' : List Char}
    (kept : Keep acc) (read : s.elements names first acc t = .ok (last, t')) : Keep last := by
  induction names generalizing first acc t with
  | nil => cases read; exact kept
  | cons name names ih =>
    unfold elements at read
    split at read
    · cases read
    split at read
    · cases read
    split at read
    · obtain ⟨⟨next, r⟩, taken, read⟩ := bind_ok read
      exact ih (keeps kept taken) read
    split at read
    · split at read
      · cases read
      split at read
      · cases read
      · obtain ⟨⟨next, r⟩, taken, read⟩ := bind_ok read
        exact ih (keeps kept taken) read
    · cases read

theorem read_ok {v : α} {t t' : List Char} (blank : Keep s.blank) (read : s.read t = .ok (v, t')) :
    ∃ acc, Keep acc ∧ s.finish acc = .ok v := by
  unfold Shape.read at read
  split at read
  · cases read
  split at read
  · obtain ⟨⟨acc, r⟩, members, read⟩ := bind_ok read
    obtain ⟨value, finished, read⟩ := bind_ok read
    cases read
    exact ⟨acc, members_keep keeps blank members, finished⟩
  split at read
  · obtain ⟨⟨acc, r⟩, elements, read⟩ := bind_ok read
    obtain ⟨value, finished, read⟩ := bind_ok read
    obtain ⟨⟨_, r⟩, _, read⟩ := bind_ok read
    cases read
    exact ⟨acc, elements_keep keeps blank elements, finished⟩
  · cases read

end

end Shape

theorem readInteger_range {low high v : Int} {t t' : List Char}
    (read : readInteger low high t = .ok (v, t')) : low ≤ v ∧ v ≤ high := by
  unfold readInteger at read
  split at read
  · cases read
  split at read
  · obtain ⟨⟨n, r⟩, _, read⟩ := bind_ok read
    simp only at read
    split at read
    · cases read
    split at read
    · rename_i inRange
      cases read
      simpa using inRange
    · cases read
  · cases read

theorem required_some (v : α) : required (some v) = .ok v := rfl

theorem required_ok {o : Option α} {v : α} (found : required o = .ok v) : o = some v := by
  cases o with
  | some w => injection found with same; rw [same]
  | none => cases found

theorem whole_of_takes {reader : Reader α} {t : List Char} {v : α} (takes : reader.Takes t v closed) :
    whole reader t = .ok v := by
  have read := takes [] trivial
  rw [List.append_nil] at read
  simp only [whole, read, ok_bind]
  rfl

theorem whole_ok {reader : Reader α} {t : List Char} {v : α} (read : whole reader t = .ok v) :
    ∃ rest, reader t = .ok (v, rest) := by
  obtain ⟨⟨w, rest⟩, taken, read⟩ := bind_ok read
  simp only at read
  split at read
  · cases read
    exact ⟨rest, taken⟩
  · cases read

end Json

open Json

/-! ## Durations, settings, rows and states -/

namespace Duration

/-- A duration that can be handed over in seconds and nanoseconds. -/
def Fits (d : Duration) : Prop := d.seconds ≤ mostSeconds

theorem finish_eq (a b : Option Int) :
    shape.finish (a, b) = (do
      let secs ← required a
      let nanos ← required b
      let d := ofParts secs.toNat nanos.toNat
      if d.seconds ≤ mostSeconds then .ok d else .error .unsuitable) := rfl

theorem finish_parts {d : Duration} (fits : d.Fits) :
    shape.finish (some (d.seconds : Int), some (d.subsecNanos : Int)) = .ok d := by
  have few : d.seconds ≤ mostSeconds := fits
  simp only [finish_eq, required_some, ok_bind, Int.toNat_natCast, ofParts_seconds_subsecNanos,
    if_pos few]

theorem takes_encode {d : Duration} (fits : d.Fits) : Reader.Takes shape.read d.encode d closed := by
  have small : d.subsecNanos < 1000000000 := Nat.mod_lt _ (by decide)
  have few : d.seconds ≤ 18446744073709551615 := fits
  have secs := takes_natural 0 18446744073709551615 d.seconds (by omega) (by omega) few
  have nanos := takes_natural 0 4294967295 d.subsecNanos (by omega) (by omega)
    (by simp only [Numeral.significandLimit]; omega)
  refine Shape.Fills.takes _ ?_ (finish_parts fits)
  refine .cons rfl (secs.map fun v => (some v, none)) ?_
  refine .cons rfl (nanos.map fun v => (some (d.seconds : Int), some v)) ?_
  exact .nil _

theorem fits_of_read {d : Duration} {t t' : List Char} (read : shape.read t = .ok (d, t')) :
    d.Fits := by
  have parts : ∃ acc, True ∧ shape.finish acc = .ok d :=
    Shape.read_ok (fun _ _ => trivial) trivial read
  obtain ⟨acc, -, finished⟩ := parts
  rw [finish_eq] at finished
  obtain ⟨secs, _, finished⟩ := bind_ok finished
  obtain ⟨nanos, _, finished⟩ := bind_ok finished
  simp only at finished
  split at finished
  · rename_i fits
    cases finished
    exact fits
  · cases finished

end Duration

namespace Settings

/-- Settings whose duration can be handed over in seconds and nanoseconds. -/
def Fits (s : Settings) : Prop := s.leaseDuration.Fits

theorem takes_encode {s : Settings} (fits : s.Fits) : Reader.Takes shape.read s.encode s closed := by
  have duration := (Duration.takes_encode fits).weaken endsNumber
  have enabled := (takes_readBool s.enabled).weaken endsNumber
  refine Shape.Fills.takes (some s.leaseDuration, some s.enabled) ?_ rfl
  refine .cons rfl (duration.map fun v => (some v, none)) ?_
  refine .cons rfl (enabled.map fun v => (some s.leaseDuration, some v)) ?_
  exact .nil _

theorem fits_of_read {v : Settings} {t t' : List Char} (read : shape.read t = .ok (v, t')) :
    v.Fits := by
  have keeps : ∀ {name acc t acc' t'}, (∀ d ∈ acc.1, Duration.Fits d) →
      shape.member name acc t = .ok (acc', t') → ∀ d ∈ acc'.1, Duration.Fits d := by
    intro name acc t acc' t' kept taken
    simp only [shape] at taken
    split at taken
    · obtain ⟨⟨d, r⟩, read, same⟩ := map_ok taken
      cases same
      intro d' member
      cases member
      exact Duration.fits_of_read read
    split at taken
    · obtain ⟨⟨b, r⟩, -, same⟩ := map_ok taken
      cases same
      exact kept
    · obtain ⟨⟨_, r⟩, -, same⟩ := map_ok taken
      cases same
      exact kept
  obtain ⟨acc, kept, finished⟩ := Shape.read_ok keeps (by simp [shape]) read
  obtain ⟨d, found, finished⟩ := bind_ok finished
  obtain ⟨e, _, finished⟩ := bind_ok finished
  cases finished
  exact kept d (required_ok found)

end Settings

namespace Record

/-- A row whose expiration is a clock reading. -/
def Fits (r : Record) : Prop := Reading.InRange r.expiration

theorem takes_encode {r : Record} (fits : r.Fits) : Reader.Takes shape.read r.encode r closed := by
  obtain ⟨low, high⟩ := fits
  have written : Written r.expiration := ⟨low, Int.le_trans high (by decide)⟩
  have name := (takes_readString r.name).weaken endsNumber
  have owner := (takes_readString r.owner).weaken endsNumber
  have expiration := takes_readInteger low high written
  refine Shape.Fills.takes (some r.name, some r.owner, some r.expiration) ?_ rfl
  refine .cons rfl (name.map fun v => (some v, none, none)) ?_
  refine .cons rfl (owner.map fun v => (some r.name, some v, none)) ?_
  refine .cons rfl (expiration.map fun v => (some r.name, some r.owner, some v)) ?_
  exact .nil _

theorem fits_of_read {v : Record} {t t' : List Char} (read : shape.read t = .ok (v, t')) : v.Fits := by
  have keeps : ∀ {name acc t acc' t'}, (∀ e ∈ acc.2.2, Reading.InRange e) →
      shape.member name acc t = .ok (acc', t') → ∀ e ∈ acc'.2.2, Reading.InRange e := by
    intro name acc t acc' t' kept taken
    simp only [shape] at taken
    split at taken
    · obtain ⟨⟨_, r⟩, -, same⟩ := map_ok taken
      cases same
      exact kept
    split at taken
    · obtain ⟨⟨_, r⟩, -, same⟩ := map_ok taken
      cases same
      exact kept
    split at taken
    · obtain ⟨⟨e, r⟩, read, same⟩ := map_ok taken
      cases same
      intro e' member
      cases member
      exact readInteger_range read
    · obtain ⟨⟨_, r⟩, -, same⟩ := map_ok taken
      cases same
      exact kept
  obtain ⟨acc, kept, finished⟩ := Shape.read_ok keeps (by simp [shape]) read
  obtain ⟨n, _, finished⟩ := bind_ok finished
  obtain ⟨o, _, finished⟩ := bind_ok finished
  obtain ⟨e, found, finished⟩ := bind_ok finished
  cases finished
  exact kept e (required_ok found)

end Record

namespace LeaseState

theorem decode_encode (s : LeaseState) : decode s.encode = .ok s := by
  cases s <;> rfl

end LeaseState

/-! ## Round trips -/

/-- Writing and reading values of a type: those that fit are read back, hence told apart by their
    texts, and whatever is read fits. -/
structure RoundTrip {α : Type} (encode : α → List Char) (decode : List Char → Except Fault α)
    (Fits : α → Prop) : Prop where
  back : ∀ v, Fits v → decode (encode v) = .ok v
  distinct : ∀ v w, Fits v → Fits w → encode v = encode w → v = w
  again : ∀ t v, decode t = .ok v → Fits v ∧ decode (encode v) = .ok v

theorem RoundTrip.of_back {α : Type} {encode : α → List Char} {decode : List Char → Except Fault α}
    {Fits : α → Prop} (back : ∀ v, Fits v → decode (encode v) = .ok v)
    (fits : ∀ t v, decode t = .ok v → Fits v) : RoundTrip encode decode Fits where
  back := back
  distinct v w fitsV fitsW same := by
    have read := back v fitsV
    rw [same, back w fitsW] at read
    injection read with same
    exact same.symm
  again t v read := ⟨fits t v read, back v (fits t v read)⟩

/-- Rows, settings and states of a handle make the round trip through their texts: every value that
    the program can hold (any strings, expirations of sixty-four bits, durations whose seconds fit
    sixty-four bits) is read back from what is written for it, no two of them have the same text, and
    from whatever text a value was read, writing it and reading it again gives that value. -/
theorem written_and_read_back :
    RoundTrip Record.encode Record.decode Record.Fits
      ∧ RoundTrip Settings.encode Settings.decode Settings.Fits
      ∧ RoundTrip LeaseState.encode LeaseState.decode (fun _ => True) := by
  refine ⟨?rows, ?settings, ?states⟩
  case rows =>
    apply RoundTrip.of_back
    · intro r fits
      exact whole_of_takes (Record.takes_encode fits)
    · intro t r decoded
      obtain ⟨rest, read⟩ := whole_ok decoded
      exact Record.fits_of_read read
  case settings =>
    apply RoundTrip.of_back
    · intro s fits
      exact whole_of_takes (Settings.takes_encode fits)
    · intro t s decoded
      obtain ⟨rest, read⟩ := whole_ok decoded
      exact Settings.fits_of_read read
  case states =>
    apply RoundTrip.of_back
    · intro s _
      exact LeaseState.decode_encode s
    · intro t s _
      trivial

/-- Nanoseconds beyond a second are carried when they are read, and written as what they come to. -/
example :
    (Settings.decode "[[3, 1500000000], true]".toList).map (fun s => String.ofList s.encode)
      = .ok "\x7b\"lease_duration\":\x7b\"secs\":4,\"nanos\":500000000\x7d,\"enabled\":true\x7d" := by
  rfl

end Leasehold
