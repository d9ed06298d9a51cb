/-! # Lists of values by key

What can be found under a key after a list of keyed values has been changed. Tables inside the
process, the slots of a worker and the names in use are kept as such lists.
-/

namespace Leasehold.Keyed

variable {α β : Type}

theorem lookup_erase_self (l : List (String × α)) (k : String) :
    (l.filter fun e => e.1 ≠ k).lookup k = none := by
  induction l with
  | nil => rfl
  | cons e l ih =>
    obtain ⟨a, v⟩ := e
    by_cases h : a = k
    · simpa [h] using ih
    · have hk : (k == a) = false := by simpa using fun hka => h hka.symm
      simpa [h, List.lookup_cons, hk] using ih

theorem lookup_erase_of_ne (l : List (String × α)) {k k' : String} (hne : k' ≠ k) :
    (l.filter fun e => e.1 ≠ k).lookup k' = l.lookup k' := by
  induction l with
  | nil => rfl
  | cons e l ih =>
    obtain ⟨a, v⟩ := e
    by_cases h : a = k
    · subst h
      have hk : (k' == a) = false := by simpa using hne
      simpa [List.lookup_cons, hk] using ih
    · simp only [List.filter_cons, h, ne_eq, not_false_eq_true, decide_true, if_true,
        List.lookup_cons]
      split
      · rfl
      · exact ih

theorem lookup_map_value (l : List (String × α)) (f : String → α → β) (k : String) :
    (l.map fun e => (e.1, f e.1 e.2)).lookup k = (l.lookup k).map (f k) := by
  induction l with
  | nil => rfl
  | cons e l ih =>
    obtain ⟨a, v⟩ := e
    by_cases h : k = a
    · simp [h]
    · have hk : (k == a) = false := by simpa using h
      simpa [List.lookup_cons, hk] using ih

/-- A value put at the end is found unless its key had one before. -/
theorem lookup_concat (l : List (String × α)) (k k' : String) (v : α) :
    (l ++ [(k, v)]).lookup k' = (l.lookup k').or (if k' = k then some v else none) := by
  by_cases h : k' = k
  · simp [List.lookup_append, h]
  · have hk : (k' == k) = false := by simpa using h
    simp [List.lookup_append, List.lookup_cons, h, hk]

theorem lookup_isSome_iff (l : List (String × α)) (k : String) :
    (l.lookup k).isSome ↔ k ∈ l.map (·.1) := by
  induction l with
  | nil => simp
  | cons e l ih =>
    obtain ⟨a, v⟩ := e
    by_cases h : k = a
    · simp [h]
    · have hk : (k == a) = false := by simpa using h
      simp [List.lookup_cons, hk, h, ih]

theorem mem_of_lookup {l : List (String × α)} {k : String} {v : α} (h : l.lookup k = some v) :
    (k, v) ∈ l := by
  induction l with
  | nil => simp at h
  | cons e l ih =>
    obtain ⟨a, w⟩ := e
    by_cases hk : k = a
    · subst hk
      simp_all
    · have hka : (k == a) = false := by simpa using hk
      rw [List.lookup_cons, hka] at h
      exact List.mem_cons_of_mem _ (ih h)

end Leasehold.Keyed
