import Leasehold.World.Settle

/-! # Starting a single manager

What comes of starting one manager on a store, when nobody else is around and every call on the
store is answered at once.
-/

namespace Leasehold.Trial

/-- How the first attempt to start has ended. -/
def result? (w : World) : Option (Except LeaseError Unit) :=
  w.journal.reverse.findSome? fun e =>
    match e.note with
    | .startEnded _ result => some result
    | _ => none

/-- Starts a manager at a given time: the result, and the world afterwards. -/
def begin (owner : String) (settings : Settings) (store : Backend) (time : Int)
    (clock : ClockSetting) : Except LeaseError Unit × Running :=
  let world := (World.initial time [store]).join owner settings 0 clock
  let running := (Running.ofWorld (world.start 0).2).settle
  ((result? running.world).getD (.error .stopped), running)

/-- Starts a manager whose clock is off by an offset at a given time: the result, and the store
    afterwards. A manager with disabled leases does not touch it. -/
def start (settings : Settings) (store : Backend) (time offset : Int) :
    Except LeaseError Unit × Backend :=
  let (result, running) := begin "" settings store time ⟨0, some (time + offset)⟩
  (result, running.world.stores.head?.getD store)

/-- What such a start runs into, if it crashes. The clock is looked at only if leases are enabled and
    the settings are valid, and its sum is checked. -/
def crash? (settings : Settings) (store : Backend) (time offset : Int) : Option Overflow :=
  if settings.enabled && settings.validate.toBool && Reading.overflows (time + offset) then some .add
  else (begin "" settings store time ⟨0, some (time + offset)⟩).2.world.crash?

end Leasehold.Trial
