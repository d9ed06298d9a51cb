import Leasehold.Duration

/-! # The scheduler

Chains maintenance cycles: the next one is requested only after the one before it has been
acknowledged and the pause between cycles has passed. A slow store stretches the period instead of
piling up cycles.
-/

namespace Leasehold

inductive Pacing where
  | requesting
  /-- Waits for the acknowledgement of a ticket. -/
  | awaiting (ticket : Nat)
  /-- The ticket has been acknowledged. -/
  | acknowledged
  /-- Sleeps until a point of simulated time. -/
  | sleeping (wake : Nat)
  deriving Repr, DecidableEq, Inhabited

structure Scheduler where
  pacing : Pacing
  /-- Number of the next ticket. -/
  nextTicket : Nat
  /-- The scheduler has been told to end. -/
  aborted : Bool
  deriving Repr, DecidableEq, Inhabited

namespace Scheduler

def fresh : Scheduler := ⟨.requesting, 0, false⟩

def acknowledge (sc : Scheduler) (ticket : Nat) : Scheduler :=
  if sc.pacing = .awaiting ticket then { sc with pacing := .acknowledged } else sc

/-- One step of a scheduler, if it has anything to do: the scheduler and the ticket of the cycle
    that it requests. -/
def step (sc : Scheduler) (now : Nat) (interval : Duration) : Option (Scheduler × Option Nat) :=
  match sc.pacing with
  | .requesting =>
    some ({ sc with pacing := .awaiting sc.nextTicket, nextTicket := sc.nextTicket + 1 },
      some sc.nextTicket)
  | .awaiting _ => none
  | .acknowledged => some ({ sc with pacing := .sleeping (now + interval.ceilMillis) }, none)
  | .sleeping wake =>
    if wake ≤ now then some ({ sc with pacing := .requesting }, none) else none

end Scheduler

end Leasehold
