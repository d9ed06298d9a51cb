/-! # Durations

A span of time in whole nanoseconds, with the two views the rest of the library needs: whole
milliseconds for arithmetic on clock readings, and the text used in messages.
-/

namespace Leasehold

/-- A span of time, counted in nanoseconds. -/
structure Duration where
  nanos : Nat
  deriving Repr, DecidableEq, Inhabited

namespace Duration

def nanosPerSecond : Nat := 1000000000
def nanosPerMilli : Nat := 1000000
def nanosPerMicro : Nat := 1000

def zero : Duration := ⟨0⟩

/-- A span given in seconds and additional nanoseconds. -/
def ofParts (seconds nanos : Nat) : Duration := ⟨seconds * nanosPerSecond + nanos⟩

def ofSeconds (seconds : Nat) : Duration := ofParts seconds 0

def ofMillis (millis : Nat) : Duration := ⟨millis * nanosPerMilli⟩

def seconds (d : Duration) : Nat := d.nanos / nanosPerSecond

/-- What is left of a span beyond its whole seconds, in nanoseconds. -/
def subsecNanos (d : Duration) : Nat := d.nanos % nanosPerSecond

/-- Whole milliseconds, rounded down. -/
def wholeMillis (d : Duration) : Nat := d.nanos / nanosPerMilli

/-- Milliseconds, rounded up: a timer of this length fires at the first whole millisecond that is
    not before the span has passed. -/
def ceilMillis (d : Duration) : Nat := (d.nanos + (nanosPerMilli - 1)) / nanosPerMilli

/-- The `n`-th part of a span, in nanoseconds rounded down. -/
def part (d : Duration) (n : Nat) : Duration := ⟨d.nanos / n⟩

/-- Decimal digits of `n`, filled up with leading zeros to `width` places. -/
def paddedDigits (width n : Nat) : List Char :=
  let digits := (toString n).toList
  List.replicate (width - digits.length) '0' ++ digits

/-- `value / 10 ^ places` as a decimal without trailing zeros in its fraction. -/
def decimalText (value places : Nat) : String :=
  let unit := Nat.pow 10 places
  let whole := toString (value / unit)
  let fraction := paddedDigits places (value % unit)
  let kept := (fraction.reverse.dropWhile (· == '0')).reverse
  if value % unit = 0 then whole else whole ++ "." ++ String.ofList kept

/-- The text of a span in messages: the largest of seconds, milliseconds, microseconds and
    nanoseconds that leaves a whole part of at least one, then the exact fraction. -/
def text (d : Duration) : String :=
  if nanosPerSecond ≤ d.nanos then decimalText d.nanos 9 ++ "s"
  else if nanosPerMilli ≤ d.nanos then decimalText d.nanos 6 ++ "ms"
  else if nanosPerMicro ≤ d.nanos then decimalText d.nanos 3 ++ "µs"
  else toString d.nanos ++ "ns"

theorem ofParts_seconds_subsecNanos (d : Duration) : ofParts d.seconds d.subsecNanos = d := by
  cases d with
  | mk n => simp only [ofParts, seconds, subsecNanos, Duration.mk.injEq, nanosPerSecond]; omega

end Duration

end Leasehold
