/-
Berth.Acquire.Marker — what the probe makes of the health marker
(`internal/acquire/state.go`).

`os.Stat` is given by its answer: the modification time, or the error,
with `os.ErrNotExist` apart from the others. `evaluateMarkerAge` is the
comparison that both the sidecar and the probe use; `Time.Sub` does not
saturate here, which makes a difference only for a bound of 292 years.
-/
import Berth.Acquire.Helper
import Berth.GoTime.Duration

namespace Berth.Acquire

open Berth.Lease Berth.GoTime

/-- `HealthVerdict`. -/
inductive HealthVerdict where
  | ok
  | absent
  | stale
  | indeterminate
  deriving DecidableEq, Repr

/-- `HealthResult`. -/
structure HealthResult where
  verdict : HealthVerdict
  age : Duration := 0
  maxAge : Duration := 0
  err : Option Err := none
  deriving DecidableEq

namespace HealthResult

/-- `HealthResult.OK`. -/
def isOK (r : HealthResult) : Bool := r.verdict == .ok

/-- `Duration.Round(time.Second)`, halves away from zero. -/
def roundSecond (d : Duration) : Duration :=
  let rest := d.tmod second
  if d < 0 then
    if -rest + -rest < second then d - rest else d - second - rest
  else if rest + rest < second then d - rest
  else d + second - rest

/-- `HealthResult.Reason`. -/
def reason (r : HealthResult) (path : String) : String :=
  match r.verdict with
  | .ok => ""
  | .absent => "health marker absent: " ++ path
  | .stale =>
    "health marker stale: " ++ path ++ " not refreshed for " ++
      durationString (roundSecond r.age) ++ " (limit " ++ durationString r.maxAge ++
      "); the lease sidecar is not renewing"
  | .indeterminate =>
    "health marker indeterminate: " ++ path ++ ": " ++ (r.err.map Err.text).getD "<nil>"

end HealthResult

/-- `evaluateMarkerAge`; a bound of zero or less asks for presence only. -/
def evaluateMarkerAge (modified observed : Time) (maxAge : Duration) : HealthResult :=
  if maxAge ≤ 0 then { verdict := .ok }
  else
    let age := observed - modified
    if maxAge < age then { verdict := .stale, age := age, maxAge := maxAge }
    else { verdict := .ok, age := age, maxAge := maxAge }

/-- `EvaluateMarker`, at the instant `observed`. -/
def evaluateMarker (stat : Except SysErr Time) (observed : Time) (maxAge : Duration) :
    HealthResult :=
  match stat with
  | .error .absent => { verdict := .absent, maxAge := maxAge }
  | .error (.other e) => { verdict := .indeterminate, maxAge := maxAge, err := some e }
  | .ok modified => evaluateMarkerAge modified observed maxAge

namespace State

/-- `State.IsHealthy`. -/
def isHealthy (stat : Except SysErr Time) (observed : Time) : Bool :=
  (evaluateMarker stat observed 0).isOK

/-- `State.IsFresh`. -/
def isFresh (stat : Except SysErr Time) (observed : Time) (maxAge : Duration) : HealthResult :=
  evaluateMarker stat observed maxAge

end State

/-- With a bound, the marker passes if it is there and not too old. -/
theorem evaluateMarker_ok_iff {stat : Except SysErr Time} {observed : Time} {maxAge : Duration}
    (h : 0 < maxAge) :
    (evaluateMarker stat observed maxAge).verdict = .ok ↔
      ∃ modified, stat = .ok modified ∧ observed ≤ modified + maxAge := by
  cases stat with
  | error e => cases e <;> simp [evaluateMarker]
  | ok modified =>
    have hbound : ¬ maxAge ≤ 0 := Int.not_le.mpr h
    simp only [evaluateMarker, evaluateMarkerAge, if_neg hbound, Except.ok.injEq,
      exists_eq_left']
    split
    · next hage =>
      simp only [reduceCtorEq, false_iff]
      intro hle
      have := Int.sub_left_le_of_le_add hle
      exact absurd hage (Int.not_lt.mpr this)
    · next hage =>
      simp only [true_iff]
      exact Int.le_add_of_sub_left_le (Int.not_lt.mp hage)

end Berth.Acquire
