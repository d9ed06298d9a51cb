import Leasehold.Postgres.TlsMode
import Mathlib

/-! # Names of encryption modes in any case

A mode is read off the full lower case of a text. Beyond ASCII there are two characters whose lower case
has a character of ASCII in it: the dotted capital I, whose dot stays behind the letter, and the sign of
the Kelvin, a k, which no mode has in its name. So the names are read in any case of their ASCII letters,
and with no other letters.
-/

namespace Leasehold

namespace Text

variable {c : Char} {before cs : List Char}

def IsAscii (c : Char) : Prop := c.toNat < 128

instance : DecidablePred IsAscii := fun c => inferInstanceAs (Decidable (c.toNat < 128))

/-! ## One character -/

theorem lowerChar_ascii (ascii : IsAscii c) : lowerChar c = [c.toLower] := by
  have table : ∀ code < 128, lowerChar (Char.ofNat code) = [(Char.ofNat code).toLower] := by
    decide +kernel
  have entry := table c.toNat ascii
  rw [Char.ofNat_toNat] at entry
  exact entry

theorem toLower_beyond (beyond : ¬IsAscii c) : c.toLower = c := by
  apply Char.toLower_eq_of_not_isUpper
  simp only [IsAscii, Char.isUpper, decide_eq_true_eq, UInt32.le_iff_toNat_le]
    at beyond ⊢
  change ¬(65 ≤ c.toNat ∧ c.toNat ≤ 90)
  omega

/-- The characters of a run have a lower case that is no character of ASCII. -/
def CaseRun.StaysBeyond (r : CaseRun) : Prop :=
  128 ≤ r.first + r.distance
    ∧ (r.last + r.distance < 0xD800 ∨ 0xE000 ≤ r.first + r.distance ∧ r.last + r.distance < 0x110000)

instance : DecidablePred CaseRun.StaysBeyond := fun _ => inferInstanceAs (Decidable (_ ∧ _))

theorem staysBeyond_of_mem : ∀ r ∈ lowerRuns,
    r.last < 128 ∨ r = ⟨0x212A, 0x212A, 1, -8383⟩ ∨ r.StaysBeyond := by decide +kernel

theorem CaseRun.StaysBeyond.lower {r : CaseRun} (stays : r.StaysBeyond)
    (inside : r.contains c.toNat = true) :
    ¬IsAscii (Char.ofNat ((c.toNat : Int) + r.distance).toNat) := by
  obtain ⟨low, valid⟩ := stays
  simp only [contains, Bool.and_eq_true, decide_eq_true_eq] at inside
  have code : (((c.toNat : Int) + r.distance).toNat).isValidChar := by
    unfold Nat.isValidChar
    omega
  rw [IsAscii, Char.toNat_ofNat, if_pos code]
  omega

theorem lowerChar_beyond (beyond : ¬IsAscii c) : ∃ d ∈ lowerChar c, ¬IsAscii d ∨ d = 'k' := by
  unfold lowerChar
  split
  · exact ⟨Char.ofNat 0x307, by simp, .inl (by decide)⟩
  · split
    · rename_i r found
      have inside := List.find?_some found
      have cases := staysBeyond_of_mem r (List.mem_of_find?_eq_some found)
      refine ⟨_, List.mem_singleton_self _, ?_⟩
      rcases cases with low | rfl | stays
      · simp only [CaseRun.contains, Bool.and_eq_true, decide_eq_true_eq] at inside
        unfold IsAscii at beyond
        omega
      · simp only [CaseRun.contains, Bool.and_eq_true, decide_eq_true_eq] at inside
        have code : c.toNat = 0x212A := by omega
        exact .inr (by rw [code]; rfl)
      · exact .inl (stays.lower inside)
    · exact ⟨c, List.mem_singleton_self c, .inl beyond⟩

/-! ## A text -/

theorem lowercaseAfter_ascii (ascii : ∀ c ∈ cs, IsAscii c) :
    lowercaseAfter before cs = cs.map Char.toLower := by
  induction cs generalizing before with
  | nil => rfl
  | cons c cs ih =>
    have head : IsAscii c := ascii c List.mem_cons_self
    have plain : c ≠ 'Σ' := by
      rintro rfl
      exact absurd head (by decide)
    rw [lowercaseAfter, if_neg plain, lowerChar_ascii head, List.map_cons,
      ih fun d later => ascii d (List.mem_cons_of_mem c later)]
    rfl

theorem lowercaseAfter_beyond (before : List Char) (member : c ∈ cs) (beyond : ¬IsAscii c) :
    ∃ d ∈ lowercaseAfter before cs, ¬IsAscii d ∨ d = 'k' := by
  induction cs generalizing before with
  | nil => cases member
  | cons first cs ih =>
    rw [lowercaseAfter]
    rcases List.mem_cons.mp member with rfl | later
    · split
      · refine ⟨_, List.mem_append_left _ (List.mem_singleton_self _), .inl ?_⟩
        split <;> decide
      · obtain ⟨d, inside, trace⟩ := lowerChar_beyond beyond
        exact ⟨d, List.mem_append_left _ inside, trace⟩
    · obtain ⟨d, inside, trace⟩ := ih (first :: before) later
      exact ⟨d, List.mem_append_right _ inside, trace⟩

end Text

namespace Postgres.TlsMode

open Text

variable {text : String} {m : TlsMode}

theorem name_plain (m : TlsMode) : ∀ d ∈ m.name.toList, IsAscii d ∧ d ≠ 'k' := by
  cases m <;> simp [name, IsAscii]

theorem toLower_name (m : TlsMode) : m.name.toLower = m.name := by
  rw [String.toLower, ← String.toList_inj, String.toList_map]
  cases m <;> decide +kernel

theorem ascii_of_lowercase (named : lowercase text = m.name) : ∀ c ∈ text.toList, IsAscii c := by
  intro c member
  by_contra beyond
  obtain ⟨d, inside, trace⟩ := lowercaseAfter_beyond [] member beyond
  have plain := name_plain m d (by rw [← named, lowercase, String.toList_ofList]; exact inside)
  rcases trace with foreign | kelvin
  · exact foreign plain.1
  · exact plain.2 kelvin

theorem ascii_of_toLower (named : text.toLower = m.name) : ∀ c ∈ text.toList, IsAscii c := by
  intro c member
  by_contra beyond
  have inside : c ∈ m.name.toList := by
    rw [← named, String.toLower, String.toList_map, ← toLower_beyond beyond]
    exact List.mem_map_of_mem member
  exact beyond (name_plain m c inside).1

theorem lowercase_ascii (ascii : ∀ c ∈ text.toList, IsAscii c) : lowercase text = text.toLower := by
  rw [lowercase, lowercaseAfter_ascii ascii, ← String.toList_inj, String.toList_ofList, String.toLower,
    String.toList_map]

theorem lowercase_eq_name_iff : lowercase text = m.name ↔ text.toLower = m.name.toLower := by
  rw [toLower_name]
  constructor
  · intro named
    rw [← lowercase_ascii (ascii_of_lowercase named), named]
  · intro named
    rw [lowercase_ascii (ascii_of_toLower named), named]

theorem parse_eq_ok_iff : parse text = .ok m ↔ lowercase text = m.name := by
  simp only [parse]
  split
  case isTrue disable => rw [disable]; cases m <;> simp [name]
  case isFalse other =>
    split
    case isTrue require => rw [require]; cases m <;> simp [name]
    case isFalse other' =>
      split
      case isTrue verifyFull => rw [verifyFull]; cases m <;> simp [name]
      case isFalse none => cases m <;> simp [name, *]

theorem parse_unnamed (unnamed : ∀ m : TlsMode, lowercase text ≠ m.name) :
    parse text = .error (.invalidConfig ("unknown TLS mode '" ++ lowercase text
      ++ "' (expected disable, require or verify-full)")) := by
  have disable : lowercase text ≠ "disable" := unnamed .disable
  have require : lowercase text ≠ "require" := unnamed .require
  have verifyFull : lowercase text ≠ "verify-full" := unnamed .verifyFull
  simp only [parse, if_neg disable, if_neg require, if_neg verifyFull]

/-- The names of the modes are read in any case of their ASCII letters, which are the letters that
`String.toLower` changes, and nothing else is. -/
theorem parse_up_to_ascii_case (text : String) :
    (∀ m, parse text = .ok m ↔ text.toLower = m.name.toLower)
      ∧ ((∀ m : TlsMode, text.toLower ≠ m.name.toLower) →
          parse text = .error (.invalidConfig ("unknown TLS mode '" ++ lowercase text
            ++ "' (expected disable, require or verify-full)")))
      ∧ ∀ c ∈ text.toList, ¬IsAscii c → ∃ message, parse text = .error (.invalidConfig message) := by
  have unnamed (other : ∀ m : TlsMode, text.toLower ≠ m.name.toLower) :
      ∀ m : TlsMode, lowercase text ≠ m.name :=
    fun m named => other m (lowercase_eq_name_iff.mp named)
  refine ⟨fun m => parse_eq_ok_iff.trans lowercase_eq_name_iff,
    fun other => parse_unnamed (unnamed other), ?_⟩
  intro c member beyond
  refine ⟨_, parse_unnamed (unnamed ?_)⟩
  intro m named
  rw [toLower_name] at named
  exact beyond (ascii_of_toLower named c member)

/-- A dotted capital I is not an I, whatever its lower case begins with. -/
theorem parse_verify_full :
    lowerChar 'İ' = ['i', Char.ofNat 0x307]
      ∧ (∃ message, parse "VERİFY-FULL" = .error (.invalidConfig message))
      ∧ (∀ m : TlsMode, "Disabled".toLower ≠ m.name.toLower)
      ∧ parse "Disabled" = .error (.invalidConfig ("unknown TLS mode '" ++ lowercase "Disabled"
            ++ "' (expected disable, require or verify-full)"))
      ∧ parse "VERIFY-Full" = .ok .verifyFull := by
  have other : ∀ m : TlsMode, "Disabled".toLower ≠ m.name.toLower := by
    intro m
    rw [toLower_name, String.toLower, Ne, ← String.toList_inj, String.toList_map]
    cases m <;> decide +kernel
  have named : "VERIFY-Full".toLower = TlsMode.verifyFull.name.toLower := by
    rw [toLower_name, String.toLower, ← String.toList_inj, String.toList_map]
    decide +kernel
  have dotted := (parse_up_to_ascii_case "VERİFY-FULL").2.2 'İ' (by decide +kernel) (by decide)
  exact ⟨by decide +kernel, dotted, other, (parse_up_to_ascii_case "Disabled").2.1 other,
    ((parse_up_to_ascii_case "VERIFY-Full").1 .verifyFull).mpr named⟩

end Postgres.TlsMode

end Leasehold
