import Leasehold.Proofs.Gate

/-! # The check of the clocks

A start compares the local clock with the store's by the absolute value of their difference. For readings
less than half of the range apart that is exact. Beyond that the difference, or its absolute value, is no
reading any more: the start crashes and answers nobody.
-/

namespace Leasehold

namespace Reading

variable {a b : Int}

theorem overflows_iff (x : Int) : overflows x = true ↔ ¬ InRange x := by simp [overflows]

/-- The skew is told for readings less than half of the range apart, and for no others. -/
theorem skewOverflow?_eq_none_iff : skewOverflow? a b = none ↔ skew a b < 2 ^ 63 := by
  unfold skewOverflow? skew
  split
  · rename_i beyond
    rw [overflows_iff] at beyond
    unfold InRange min max at beyond
    exact ⟨nofun, fun near => by omega⟩
  · rename_i fits
    rw [overflows_iff, not_not] at fits
    unfold InRange min max at fits
    split
    · rename_i lowest
      rw [Bool.and_eq_true, decide_eq_true_eq, overflows_iff] at lowest
      unfold InRange min max at lowest
      exact ⟨nofun, fun near => by omega⟩
    · rename_i other
      rw [Bool.and_eq_true, decide_eq_true_eq, overflows_iff] at other
      unfold InRange min max at other
      exact ⟨fun _ => by omega, fun _ => rfl⟩

/-- Half of the range is the lowest reading, which has no absolute value. Beyond that there is no
    difference. -/
theorem skewOverflow?_of_far (far : 2 ^ 63 ≤ skew a b) :
    skewOverflow? a b = some (if a - b = min then .negate else .subtract) := by
  unfold skew at far
  unfold skewOverflow?
  by_cases lowest : a - b = min
  · have fits : ¬ overflows (a - b) = true := by
      rw [overflows_iff, not_not, lowest]
      decide
    have negative : (a - b < 0 && overflows (b - a)) = true := by
      rw [Bool.and_eq_true, decide_eq_true_eq, overflows_iff]
      unfold min at lowest
      unfold InRange min max
      omega
    rw [if_neg fits, if_pos negative, if_pos lowest]
  · have beyond : overflows (a - b) = true := by
      rw [overflows_iff]
      unfold min at lowest
      unfold InRange min max
      omega
    rw [if_pos beyond, if_neg lowest]

end Reading

namespace Manager

variable {m : Manager} {s : Surroundings} {store : Backend} {id : Nat} {call : Call} {time : Int}

theorem stepAttempt_of_time (found : (m.attempts.find? fun a => a.id = id) = some ⟨id, .comparing call⟩)
    (due : call.isDue s.now = true)
    (answered : (call.finish (.attempt id) s.trueTime store).1 = .ok (.time time)) :
    m.stepAttempt s store id = some ((m.compareClocks s store.label id time).1,
      (call.finish (.attempt id) s.trueTime store).2.1,
      (call.finish (.attempt id) s.trueTime store).2.2
        ++ (m.compareClocks s store.label id time).2) := by
  simp only [stepAttempt, found, due, if_true, answered, Reply.millis]

/-- Once the store has told its time, a start goes on to the table if the clocks are no more than the grace
    window apart, and ends with the skew if they are further apart, as long as they are less than half of
    the range of readings apart. Otherwise it crashes: it never ends, and asks nobody for anything. -/
theorem clock_check (found : (m.attempts.find? fun a => a.id = id) = some ⟨id, .comparing call⟩)
    (due : call.isDue s.now = true)
    (answered : (call.finish (.attempt id) s.trueTime store).1 = .ok (.time time)) :
    let skew := Reading.skew s.clock time
    let grace := m.settings.graceMillis
    ∃ m' b notes, m.stepAttempt s store id = some (m', b, notes)
      ∧ (skew < 2 ^ 63 → skew ≤ grace → (m'.attempts.find? fun a => a.id = id)
          = some ⟨id, .preparing (Call.place s.link s.now .ensureSchema)⟩
        ∧ .began (.attempt id) .ensureSchema ∈ notes ∧ ∀ result, .startEnded id result ∉ notes)
      ∧ (skew < 2 ^ 63 → grace < skew → (m'.attempts.find? fun a => a.id = id) = none ∧ Unasked notes
        ∧ .startEnded id (.error (.clockSkew skew grace)) ∈ notes)
      ∧ (2 ^ 63 ≤ skew → (m'.attempts.find? fun a => a.id = id) = none ∧ Unasked notes
        ∧ (∀ result, .startEnded id result ∉ notes)
        ∧ .startCrashed id (if s.clock - time = Reading.min then .negate else .subtract) ∈ notes) := by
  intro skew grace
  have unended {notes : List Note} (silent : ∀ result, .startEnded id result ∉ notes) (result) :
      .startEnded id result ∉ (call.finish (.attempt id) s.trueTime store).2.2 ++ notes := by
    intro member
    rcases List.mem_append.mp member with called | told
    · cases routine_finish call (.attempt id) s.trueTime store _ called
    · exact silent result told
  refine ⟨_, _, _, stepAttempt_of_time found due answered, fun fits near => ?_, fun fits far => ?_,
    fun far => ?_⟩
  · obtain ⟨told, goesOn⟩ := compareClocks_of_near store.label id
      (Reading.skewOverflow?_eq_none_iff.mpr fits) near
    rw [goesOn]
    exact ⟨find?_setStage found _, by simp, unended (by simp)⟩
  · obtain ⟨fields, stops⟩ := compareClocks_of_far store.label id
      (Reading.skewOverflow?_eq_none_iff.mpr fits) far
    rw [stops]
    refine ⟨?_, ?_, ?_⟩
    · rw [attempts_failStart, List.find?_filter]
      simp
    · refine unasked_append (not_began_finish call _ _ _) ?_
      exact unasked_append (by simp [Unasked] : Unasked [_]) (unasked_failStart m id _)
    · have ended : .startEnded id (.error (.clockSkew skew grace))
          ∈ (m.failStart id (.clockSkew skew grace)).2 := by
        simp [failStart, endAttempt]
      exact List.mem_append_right _ (List.mem_cons_of_mem _ ended)
  · rw [compareClocks_of_overflow (Reading.skewOverflow?_of_far far)]
    refine ⟨?_, ?_, unended (by simp [crashStart]), ?_⟩
    · rw [crashStart, attempts_dropAttempt, List.find?_filter]
      simp
    · exact unasked_append (not_began_finish call _ _ _) (unasked_crashStart m id _)
    · exact List.mem_append_right _ List.mem_cons_self

/-- A store that is half of the range of readings behind. -/
def bygone : Link := { storeTime := some (-9223370336854775808) }

/-- A start that is about to learn the time of such a store. -/
def misled : Manager :=
  { fresh "a" ⟨.ofMillis 1000, true⟩ with
    lifecycle := .starting
    attempts := [⟨0, .comparing (Call.place bygone 0 .referenceTime)⟩] }

/-- The start crashes, half of the range away from the store's clock, and is not turned down. -/
theorem clock_check_halfRange :
    let s : Surroundings := ⟨0, 1700000000000, 1700000000000, bygone, ⟨.ofMillis 1000, true⟩, "a"⟩
    Reading.skew s.clock (-9223370336854775808) = 2 ^ 63 ∧ misled.settings.graceMillis = 250
      ∧ ∃ m' b notes, misled.stepAttempt s .freshMemory 0 = some (m', b, notes)
        ∧ .startCrashed 0 .subtract ∈ notes ∧ ∀ result, .startEnded 0 result ∉ notes := by
  intro s
  have answered : ((Call.place bygone 0 .referenceTime).finish (.attempt 0) s.trueTime .freshMemory).1
      = .ok (.time (-9223370336854775808)) := rfl
  have opposite : Reading.skew s.clock (-9223370336854775808) = 2 ^ 63 := by decide
  obtain ⟨m', b, notes, step, _, _, crashes⟩ := clock_check (m := misled) (s := s) rfl rfl answered
  obtain ⟨_, _, silent, told⟩ := crashes opposite.ge
  exact ⟨opposite, by decide, m', b, notes, step, told, silent⟩

end Manager

end Leasehold
