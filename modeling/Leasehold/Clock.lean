/-! # Clock readings

A clock reading is a number of milliseconds since the epoch in the signed 64-bit range. Readings
are kept as integers; the operations below say which sums stop at the ends of the range. Other
arithmetic is checked: a result that is no reading is an overflow, which ends whoever computes it.
-/

namespace Leasehold

/-- Checked arithmetic whose exact result is no reading. -/
inductive Overflow where
  | add
  | subtract
  | negate
  deriving Repr, DecidableEq, Inhabited

namespace Overflow

def verb : Overflow → String
  | add => "add"
  | subtract => "subtract"
  | negate => "negate"

/-- What is told about whoever runs into it. -/
def message (o : Overflow) : String := "attempt to " ++ o.verb ++ " with overflow"

end Overflow

namespace Reading

def max : Int := 9223372036854775807

def min : Int := -9223372036854775808

/-- The reading nearest to `x`. -/
def clamp (x : Int) : Int := if x < min then min else if max < x then max else x

/-- Sum that stops at the ends of the range. -/
def add (a b : Int) : Int := clamp (a + b)

/-- Difference that stops at the ends of the range. -/
def sub (a b : Int) : Int := clamp (a - b)

def InRange (x : Int) : Prop := min ≤ x ∧ x ≤ max

instance (x : Int) : Decidable (InRange x) := inferInstanceAs (Decidable (_ ∧ _))

/-- Whether checked arithmetic whose exact result is `x` runs into an overflow. -/
def overflows (x : Int) : Bool := !decide (InRange x)

/-- Distance of two readings. -/
def skew (local_ store : Int) : Int := (local_ - store).natAbs

/-- The overflow that the distance of two readings runs into, if any: it is computed as the absolute
    value of the difference, and the lowest reading has none. -/
def skewOverflow? (local_ store : Int) : Option Overflow :=
  if overflows (local_ - store) then some .subtract
  else if local_ - store < 0 && overflows (store - local_) then some .negate
  else none

theorem clamp_inRange (x : Int) : InRange (clamp x) := by
  unfold clamp InRange min max
  split
  · omega
  · split <;> omega

theorem clamp_eq_self {x : Int} (h : InRange x) : clamp x = x := by
  unfold InRange min max at h
  unfold clamp min max
  split
  · omega
  · split <;> omega

theorem clamp_mono {x y : Int} (h : x ≤ y) : clamp x ≤ clamp y := by
  unfold clamp min max
  split <;> split <;> (try split) <;> (try split) <;> omega

theorem add_eq {a b : Int} (h : InRange (a + b)) : add a b = a + b := clamp_eq_self h

end Reading

/-- A local clock: it follows the simulated time or stands still, and is off by a fixed amount. -/
structure ClockSetting where
  /-- Difference from the time that it follows. -/
  offset : Int := 0
  /-- Where the clock stands still, if it does. -/
  frozen : Option Int := none
  deriving Repr, DecidableEq, Inhabited

/-- What the clock shows when the true time is `trueTime`. -/
def ClockSetting.reading (c : ClockSetting) (trueTime : Int) : Int :=
  Reading.add (c.frozen.getD (Reading.clamp trueTime)) c.offset

end Leasehold
