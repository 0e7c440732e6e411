/-
Berth.Acquire.Enforcer — stopping the main container and letting it run
again (`internal/acquire/enforce.go`).

The probe enforcer only toggles the health marker. The signal enforcer
keeps, per process, the instant of its SIGTERM; `termedAt` is that map.
Hold answers with its error, if any, and the enforcer as it is afterwards.
-/
import Berth.Acquire.Helper

namespace Berth.Acquire

open Berth.Interleave Berth.Lease

/-- `errors.Join` with what has failed so far; nothing asks `errors.Is`
of the result. -/
def joinErr : Except Err Unit → Err → Except Err Unit
  | .ok (), e => .error e
  | .error e₀, e => .error (.new (e₀.text ++ "\n" ++ e.text))

/-- `signalEnforcer`: its grace and its map of SIGTERM instants. -/
structure SignalEnforcer where
  grace : Duration
  termedAt : List (Nat × Time)
  deriving DecidableEq, Repr

namespace SignalEnforcer

/-- Signal one process; a process that is gone is no failure. -/
def signal (pid : Nat) (sig : Signal) (what : String) (failures : Except Err Unit) :
    Prog HelperSig (Except Err Unit) := do
  match ← kill pid sig with
  | .error (.other e) =>
    return joinErr failures (.wrap (what ++ " pid " ++ toString pid) e)
  | .error .absent => return failures
  | .ok () => return failures

/-- The loop of `signalEnforcer.Hold` over the processes found. -/
def holdLoop (now : Time) :
    List Nat → SignalEnforcer → Except Err Unit → Prog HelperSig (Except Err Unit × SignalEnforcer)
  | [], s, failures => return (failures, s)
  | pid :: pids, s, failures => do
    match s.termedAt.lookup pid with
    | none =>
      let s := { s with termedAt := (pid, now) :: s.termedAt }
      let failures ← signal pid .sigterm "SIGTERM" failures
      holdLoop now pids s failures
    | some termedAt =>
      if s.grace ≤ now - termedAt then
        let failures ← signal pid .sigkill "SIGKILL" failures
        holdLoop now pids s failures
      else holdLoop now pids s failures

/-- `signalEnforcer.Hold`: the marker goes first, whatever happens to the
signals. -/
def hold (s : SignalEnforcer) : Prog HelperSig (Except Err Unit × SignalEnforcer) := do
  let failures ← State.markUnhealthy
  match ← findProcesses with
  | .error e => return (joinErr failures (.wrap "find main process" e), s)
  | .ok pids =>
    let now ← now
    holdLoop now pids s failures

/-- `signalEnforcer.Release`. -/
def release (s : SignalEnforcer) : Prog HelperSig (Except Err Unit × SignalEnforcer) := do
  let err ← State.markHealthy
  return (err, { s with termedAt := [] })

end SignalEnforcer

/-- `Enforcer`. -/
inductive Enforcer where
  | probe
  | signal (s : SignalEnforcer)
  deriving DecidableEq, Repr

namespace Enforcer

/-- `newEnforcer`. -/
def new (cfg : Config) : Enforcer :=
  if cfg.enforce = .signal then .signal { grace := cfg.enforceGrace, termedAt := [] } else .probe

/-- `Enforcer.Hold`. -/
def hold : Enforcer → Prog HelperSig (Except Err Unit × Enforcer)
  | .probe => do return (← State.markUnhealthy, .probe)
  | .signal s => do
    let (err, s) ← s.hold
    return (err, .signal s)

/-- `Enforcer.Release`. -/
def release : Enforcer → Prog HelperSig (Except Err Unit × Enforcer)
  | .probe => do return (← State.markHealthy, .probe)
  | .signal s => do
    let (err, s) ← s.release
    return (err, .signal s)

end Enforcer

end Berth.Acquire
