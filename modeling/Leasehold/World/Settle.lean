import Leasehold.World.Basic

/-! # Letting a world run

Tasks move one at a time, in the order in which they were woken, each until it has to rest. Tasks that
are woken together move in the order in which they went to rest. No call that has been given up is
carried out.
-/

namespace Leasehold

/-- A world with the order in which its tasks will move. -/
structure Running where
  world : World
  /-- Tasks that have been woken, the first one first. -/
  woken : List Task
  /-- All tasks known so far, the one that has been resting longest first. -/
  resting : List Task
  deriving Inhabited

namespace Running

def ofWorld (world : World) : Running := ⟨world, [], []⟩

/-- Wakes every task that has something to do and has not been woken yet. -/
def wake (r : Running) : Running :=
  let tasks := r.world.tasks
  let known := r.resting.filter tasks.contains
  let resting := known ++ tasks.filter fun t => !known.contains t
  let fresh := resting.filter fun t =>
    !r.world.moving.contains t && !r.woken.contains t && r.world.canMove t
  { r with resting, woken := r.woken ++ fresh }

/-- Changes the world and wakes what has something to do now. -/
def change (r : Running) (f : World → World) : Running := { r with world := f r.world }.wake

/-- Lets the task that was woken first begin to move. -/
def pickNext (r : Running) : Running :=
  match r.woken with
  | [] => r
  | t :: woken => { r with world := r.world.pick t, woken }

/-- Moves the moving task one step, or lets it rest behind all others. -/
def proceed (r : Running) : Running × Option (Nat × List Note) :=
  match r.world.moving with
  | [] => (r, none)
  | t :: _ =>
    let (world, notes) := r.world.proceed t
    let resting :=
      if world.moving.isEmpty then r.resting.filter (· ≠ t) ++ [t] else r.resting
    ({ r with world, resting }, some (t.participant, notes))

/-- How many steps tasks take at most before everything is taken to be at rest. -/
def patience : Nat := 1000000

/-- Lets tasks move until all of them rest. After each step `after` is called with the participant
    and what happened to it. -/
def settleWith {σ : Type} (get : σ → Running) (set : Running → σ → σ)
    (after : Nat → List Note → σ → σ) : Nat → σ → σ
  | 0, s => s
  | fuel + 1, s =>
    let r := get s
    if r.world.moving.isEmpty then
      let r := r.wake
      if r.woken.isEmpty then set r s else settleWith get set after fuel (set r.pickNext s)
    else
      let (r, happened) := r.proceed
      let s := set r s
      let s :=
        match happened with
        | none => s
        | some (i, notes) => after i notes s
      settleWith get set after fuel (set (get s).wake s)

/-- Lets time pass up to a point; everything that is due up to then happens. The fuel bounds the
    milliseconds. -/
def passWith {σ : Type} (get : σ → Running) (set : Running → σ → σ)
    (after : Nat → List Note → σ → σ) (target : Nat) : Nat → σ → σ
  | 0, s => s
  | fuel + 1, s =>
    let w := (get s).world
    let elapse (t : Nat) : σ := set ((get s).change fun w => w.elapse (t - w.now)) s
    match w.nextAlarm? with
    | none => elapse target
    | some t =>
      if t ≤ target then
        passWith get set after target fuel (settleWith get set after patience (elapse t))
      else elapse target

/-- Lets tasks move until all of them rest, where nobody is called back. -/
def settle (r : Running) : Running :=
  settleWith id (fun r _ => r) (fun _ _ r => r) patience r

/-- Lets time pass up to a point, where nobody is called back. -/
def passUntil (r : Running) (target : Nat) : Running :=
  passWith id (fun r _ => r) (fun _ _ r => r) target (target - r.world.now + 1) r

end Running

end Leasehold
