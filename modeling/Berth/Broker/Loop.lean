/-
Berth.Broker.Loop — the refresh loop of the token broker
(`cmd/berth-oidc-broker/main.go`).

The broker fetches a token, writes it to a file through a temporary file
and a rename, and waits. A failed fetch or write is retried with a doubled
delay. Durations are `int64` numbers of nanoseconds: sums and products wrap,
and the time until an expiry is cut off at the ends of the range, as
`time.Until` does.
-/
import Berth.Checks.First
import Berth.Interleave.Prog
import Berth.Lease.Decimal
import Berth.Path.Clean

namespace Berth.Broker

open Berth.Checks Berth.Interleave Berth.Lease

/-! ## Configuration -/

/-- The values of a Go `time.Duration`. -/
def IsInt64 (d : Duration) : Prop := -maxInt64 - 1 ≤ d ∧ d ≤ maxInt64

instance (d : Duration) : Decidable (IsInt64 d) := inferInstanceAs (Decidable (_ ∧ _))

/-- `loopConfig`. -/
structure LoopConfig where
  outputPath : String
  refreshSkew : Duration
  minRefresh : Duration
  fetchTimeout : Duration
  maxRetryInterval : Duration
  int64 : ∀ d ∈ [refreshSkew, minRefresh, fetchTimeout, maxRetryInterval], IsInt64 d := by decide

/-- `loopConfig.validate`. -/
def LoopConfig.validate (lc : LoopConfig) : Option Err :=
  refuse (lc.refreshSkew < 0) (.new "--refresh-skew must not be negative") <|>
  refuse (lc.fetchTimeout ≤ 0) (.new "--fetch-timeout must be positive") <|>
  refuse (lc.minRefresh ≤ 0) (.new "--min-refresh-interval must be positive") <|>
  refuse (lc.maxRetryInterval < lc.minRefresh)
    (.new "--max-retry-interval must be at least --min-refresh-interval")

/-! ## Effects -/

/-- What the loop reads of an `oauth2.Token`. -/
structure Token where
  accessToken : String
  expiry : Time
  deriving DecidableEq

inductive BrokerOp where
  /-- `ctx.Err() != nil` -/
  | ctxErr
  /-- `cfg.Token`, under a deadline -/
  | token (timeout : Duration)
  | createTemp (dir pattern : String)
  | writeString (tmp text : String)
  | chmod (tmp : String) (mode : Nat)
  | close (tmp : String)
  | rename (tmp path : String)
  | remove (tmp : String)
  | now
  /-- `sleep`: false when the context ended first -/
  | sleep (d : Duration)
  deriving DecidableEq

def BrokerOp.Res : BrokerOp → Type
  | .ctxErr | .sleep _ => Bool
  | .token _ => Except Err Token
  | .createTemp _ _ => Except Err String
  | .writeString _ _ | .chmod _ _ | .close _ | .rename _ _ | .remove _ => Except Err Unit
  | .now => Time

abbrev BrokerSig : Sig := ⟨BrokerOp, BrokerOp.Res⟩

/-- The program of one effect. -/
def effect (o : BrokerOp) : Prog BrokerSig o.Res := Prog.perform (S := BrokerSig) o

def ctxErr : Prog BrokerSig Bool := effect .ctxErr

def sleep (d : Duration) : Prog BrokerSig Bool := effect (.sleep d)

/-! ## One refresh -/

/-- `fetchToken`. -/
def fetchToken (timeout : Duration) : Prog BrokerSig (Except Err Token) := do
  match ← effect (.token timeout) with
  | .error e => return .error (.wrap "fetch token" e)
  | .ok token => return .ok token

/-- The error paths of `writeTokenAtomic` after the file exists. -/
def abandon (tmp : String) (e : Err) : Prog BrokerSig (Except Err Unit) := do
  let _ ← effect (.remove tmp)
  return .error e

/-- `writeTokenAtomic`. -/
def writeTokenAtomic (path token : String) : Prog BrokerSig (Except Err Unit) := do
  match ← effect (.createTemp (Path.dir path) ".token-") with
  | .error e => return .error (.wrap "create temp" e)
  | .ok tmp =>
    match ← effect (.writeString tmp token) with
    | .error e =>
      let _ ← effect (.close tmp)
      abandon tmp (.wrap "write" e)
    | .ok () =>
      match ← effect (.chmod tmp 0o600) with
      | .error e =>
        let _ ← effect (.close tmp)
        abandon tmp (.wrap "chmod" e)
      | .ok () =>
        match ← effect (.close tmp) with
        | .error e => abandon tmp (.wrap "close" e)
        | .ok () =>
          match ← effect (.rename tmp path) with
          | .error e => abandon tmp (.wrap "rename" e)
          | .ok () => return .ok ()

/-- The first half of a turn: fetch, then write what was fetched. -/
def refreshToken (lc : LoopConfig) : Prog BrokerSig (Except Err Token) := do
  match ← fetchToken lc.fetchTimeout with
  | .error e => return .error e
  | .ok token =>
    match ← writeTokenAtomic lc.outputPath token.accessToken with
    | .error e => return .error (.wrap ("write token file " ++ quote lc.outputPath) e)
    | .ok () => return .ok token

/-! ## Delays -/

/-- `nextRetry`; the product is an `int64`. -/
def nextRetry (current limit : Duration) : Duration :=
  let next := toInt64 (current * 2)
  if next ≤ 0 ∨ limit < next then limit else next

/-- `time.Until(t)` at `now`: the difference, cut off at the ends of the
range. -/
def timeUntil (t now : Time) : Duration := max (-maxInt64 - 1) (min (t - now) maxInt64)

/-- What `nextRefresh` computes from a reading of the clock; the difference
is an `int64`. -/
def refreshDelay (expiry now : Time) (skew minRefresh : Duration) : Duration :=
  let wait := toInt64 (timeUntil expiry now - skew)
  if wait < minRefresh then minRefresh else wait

/-- `nextRefresh`. -/
def nextRefresh (expiry : Time) (skew minRefresh : Duration) : Prog BrokerSig Duration := do
  if expiry = zeroTime then
    return minRefresh
  else
    let now ← effect .now
    return refreshDelay expiry now skew minRefresh

/-! ## The loop -/

/-- One turn of the loop of `runLoop`: the next retry delay, or `none` when
the loop returns. -/
def turn (lc : LoopConfig) (retry : Duration) : Prog BrokerSig (Option Duration) := do
  if ← ctxErr then
    return none
  else
    match ← refreshToken lc with
    | .error _ =>
      if ← ctxErr then
        return none
      else if ← sleep retry then
        return some (nextRetry retry lc.maxRetryInterval)
      else
        return none
    | .ok token =>
      let wait ← nextRefresh token.expiry lc.refreshSkew lc.minRefresh
      if ← sleep wait then
        return some lc.minRefresh
      else
        return none

/-- At most `n` turns, the first of them with this retry delay: the exit
code, or `none` when the loop goes on after them. -/
def loop (lc : LoopConfig) : Nat → Duration → Prog BrokerSig (Option Nat)
  | 0, _ => return none
  | n + 1, retry => do
    match ← turn lc retry with
    | none => return some 0
    | some retry => loop lc n retry

/-- The first `n` turns of `runLoop`. -/
def runLoop (lc : LoopConfig) (n : Nat) : Prog BrokerSig (Option Nat) := loop lc n lc.minRefresh

end Berth.Broker
