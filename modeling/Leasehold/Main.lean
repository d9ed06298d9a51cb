import Leasehold.Agent.Process
import Leasehold.Manager.OwnerId

/-! # The agent on the command line

The options come from the arguments and the environment. The log goes to standard output, and the
end of standard input takes the place of a signal.
-/

namespace Leasehold.Agent

/-- The environment variables that stand in for options, as far as they are set. -/
def readVariables : IO (List (String × String)) :=
  Opt.all.filterMapM fun o => do
    return (← IO.getEnv o.environmentName).map fun value => (o.environmentName, value)

def freshOwner : IO String := do
  return OwnerId.ofBytes ((← IO.getRandomBytes 16).toList.map UInt8.toNat)

/-- Writes the lines that the filter admits. -/
def write (filter : LogFilter) (lines : List LogLine) : IO Unit := do
  for l in lines do
    if filter.admits l.part l.level then
      IO.println (l.level.text ++ " " ++ l.part ++ ": " ++ l.message)

partial def drain (input : IO.FS.Stream) : IO Unit := do
  if (← input.getLine).isEmpty then return
  drain input

/-- Lets the session follow the clock until the input has ended. A report is due every period, and
    `reported` is when the last one was. -/
partial def follow (filter : LogFilter) (period : Option Duration) (ended : IO.Ref Bool)
    (began reported : Nat) (s : Session) : IO Session := do
  IO.sleep 50
  let now := (← IO.monoMsNow) - began
  let (lines, s) := (s.passUntil now).takeLines
  write filter lines
  if ← ended.get then return s
  if period.any fun p => reported + p.ceilMillis ≤ now then
    let (lines, s) := s.report
    write filter lines
    follow filter period ended began now s
  else
    follow filter period ended began reported s

/-- Runs the agent with its options until the input ends; the exit status. -/
def serve (o : Options) : IO UInt32 := do
  let filter := LogFilter.parse (← IO.getEnv "LEASE_LOG")
  let (log, started) := startUp o (← freshOwner) 0 .usual
  write filter log
  match started with
  | .error e =>
    IO.eprintln (errorText e)
    return 1
  | .ok s =>
    let ended ← IO.mkRef false
    let input ← IO.getStdin
    let _ ← IO.asTask (do drain input; ended.set true)
    let s ← follow filter o.reportInterval ended (← IO.monoMsNow) 0 s
    write filter (shutDown s .terminate)
    return 0

end Leasehold.Agent

open Leasehold.Agent in
def main (arguments : List String) : IO UInt32 := do
  match Options.parse arguments (← readVariables) with
  | .ok o => serve o
  | .error e =>
    match e with
    | .displayHelp => IO.println Options.help
    | e => IO.eprintln ("error: " ++ e.message)
    return (usageExit e).toUInt32
