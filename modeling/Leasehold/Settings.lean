import Leasehold.Clock
import Leasehold.Error

/-! # Settings of a lease manager

How long a lease lasts, and what follows from it: the grace window (a quarter of it) and the pause
between maintenance cycles (half of it).
-/

namespace Leasehold

/-- Settings shared by every participant of one lease table. -/
structure Settings where
  /-- Time a claimed lease stays valid without a refresh. -/
  leaseDuration : Duration
  /-- When false, every lease is granted inside the process. -/
  enabled : Bool
  deriving Repr, DecidableEq, Inhabited

namespace Settings

/-- One minute, enabled. -/
def standard : Settings := ⟨Duration.ofSeconds 60, true⟩

/-- Shortest lease that leaves a grace window of one millisecond. -/
def shortestLease : Duration := Duration.ofMillis 4

/-- Largest difference tolerated between the local clock and the store's. -/
def grace (s : Settings) : Duration := s.leaseDuration.part 4

/-- Pause between the end of one maintenance cycle and the start of the next. -/
def interval (s : Settings) : Duration := s.leaseDuration.part 2

/-- Whole milliseconds of a span, no more than the largest clock reading. -/
def cappedMillis (d : Duration) : Int := Reading.clamp d.wholeMillis

def leaseMillis (s : Settings) : Int := cappedMillis s.leaseDuration

def graceMillis (s : Settings) : Int := cappedMillis s.grace

/-- Accepts the leases that leave a grace window. -/
def validate (s : Settings) : Except LeaseError Unit :=
  if s.leaseDuration.nanos < shortestLease.nanos then
    .error (.invalidConfig ("lease duration must be at least 4ms, got " ++ s.leaseDuration.text))
  else .ok ()

end Settings

end Leasehold
