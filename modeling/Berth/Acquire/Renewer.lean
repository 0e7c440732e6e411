/-
Berth.Acquire.Renewer — the sidecar loop and the init container's gate
(`internal/acquire/renew.go`, `acquire.go`).

Every assignment to the renewer's runtime state is one `assign`. The
short-circuit conditions of the source are kept: a clock is read only
where the code gets to reading it. `Run` and `Hold` loop for ever, so
their models take the number of iterations; a run of the code up to any
instant is a run of the model with enough of them.
-/
import Berth.Acquire.Enforcer
import Berth.Client.Leases

namespace Berth.Acquire

open Berth.Interleave Berth.Lease Berth.Client

/-! ## Requests -/

namespace LeaseClient

/-- What the client makes of the answer to a POST. -/
def finish {α : Type} (id : Nat) (dec : Api.Response → Except Err α) :
    Prog HelperSig (Except Err α) := do
  match ← await id with
  | .error e => return .error (.wrap "do request" e)
  | .ok resp => return dec resp

/-- `Client.Acquire`. -/
def acquire (key : Key) (holder : String) (ttl : Duration) :
    Prog HelperSig (Except Err AcquireResult) := do
  let id ← post key (acquireEndpoint holder ttl)
  finish id decode

/-- `Client.Renew`. -/
def renew (key : Key) (holder : String) (token : Int) (ttl : Duration) :
    Prog HelperSig (Except Err AcquireResult) := do
  let id ← post key (renewEndpoint holder token ttl)
  finish id decode

/-- `Client.Release`. -/
def release (key : Key) (holder : String) (token : Int) : Prog HelperSig (Except Err Unit) := do
  let id ← post key (releaseEndpoint holder token)
  finish id decodeRelease

end LeaseClient

/-! ## The renewer -/

/-- `Renewer`. -/
structure Renewer where
  cfg : Config
  enforcer : Enforcer
  rt : Runtime

namespace Renewer

/-- `NewRenewer`. -/
def new (cfg : Config) : Renewer := { cfg := cfg, enforcer := .new cfg, rt := {} }

/-- Assign runtime fields. -/
def set (r : Renewer) (rt : Runtime) : Prog HelperSig Renewer := do
  assign rt
  return { r with rt := rt }

/-- `r.enforcer.Hold(ctx)`. -/
def hold (r : Renewer) : Prog HelperSig (Except Err Unit × Renewer) := do
  let (err, e) ← r.enforcer.hold
  return (err, { r with enforcer := e })

/-- `r.enforcer.Release(ctx)`, whose error is only logged. -/
def ungate (r : Renewer) : Prog HelperSig Renewer := do
  let (_, e) ← r.enforcer.release
  return { r with enforcer := e }

/-- `Renewer.loadHandoff`. -/
def loadHandoff (r : Renewer) : Prog HelperSig Renewer := do
  let r ← r.set { r.rt with holder := r.cfg.holder, token := 0, held := false }
  let r ← r.set { r.rt with expiresAt := zeroTime }
  let holder ← State.readHolder
  let token ← State.readToken
  match holder, token with
  | .ok holder, .ok token =>
    if holder = r.rt.holder ∧ 0 < token then
      r.set { r.rt with holder := holder, token := token, held := true }
    else return r
  | _, _ => return r

/-- `Renewer.lose`. -/
def lose (r : Renewer) : Prog HelperSig Renewer := do
  let r ← r.set { r.rt with held := false }
  let (_, r) ← r.hold
  return r

/-- `Renewer.tickCtx`: the deadline of the request context. -/
def tickCtx (r : Renewer) : Prog HelperSig Time := do
  let deadline := (← now) + r.cfg.heartbeatInterval
  if r.rt.held ∧ r.rt.expiresAt ≠ zeroTime ∧ r.rt.expiresAt < deadline then
    return r.rt.expiresAt
  else return deadline

/-- The late-response case of `tickHeld`. -/
def renewedTooLate (r : Renewer) (deadline started : Time) : Prog HelperSig Bool := do
  if ← rpcCtxErr deadline then return true
  else if !decide ((← now) < started + r.cfg.ttl) then return true
  else if r.rt.expiresAt ≠ zeroTime then return !decide ((← now) < r.rt.expiresAt)
  else return false

/-- What `tickHeld` makes of the answer to its Renew. -/
def renewed (r : Renewer) (deadline started : Time) (ans : Except Err AcquireResult) :
    Prog HelperSig Renewer := do
  match ans with
  | .error e =>
    if e.is .clientConflict then r.lose
    else if !decide ((← now) < r.rt.expiresAt) then r.lose
    else return r
  | .ok res =>
    if !res.acquired then r.lose
    else if ← r.renewedTooLate deadline started then r.lose
    else
      let r ← r.set { r.rt with token := res.fencingToken }
      let r ← r.set { r.rt with expiresAt := started + r.cfg.ttl }
      r.ungate

/-- `Renewer.tickHeld`. -/
def tickHeld (r : Renewer) : Prog HelperSig Renewer := do
  let started ← now
  if r.rt.expiresAt ≠ zeroTime ∧ ¬ started < r.rt.expiresAt then r.lose
  else
    let deadline ← r.tickCtx
    let ans ← LeaseClient.renew r.cfg.key r.rt.holder r.rt.token r.cfg.ttl
    r.renewed deadline started ans

/-- The late-response case of `tickReacquire`. -/
def acquiredTooLate (r : Renewer) (deadline started : Time) : Prog HelperSig Bool := do
  if ← rpcCtxErr deadline then return true
  else return !decide ((← now) < started + r.cfg.ttl)

/-- What `tickReacquire` makes of the answer to its Acquire. -/
def reacquired (r : Renewer) (deadline started : Time) (ans : Except Err AcquireResult) :
    Prog HelperSig Renewer := do
  match ans with
  | .error _ => return r
  | .ok res =>
    if !res.acquired then return r
    else if ← r.acquiredTooLate deadline started then return r
    else
      let r ← r.set { r.rt with token := res.fencingToken }
      let r ← r.set { r.rt with expiresAt := started + r.cfg.ttl }
      let r ← r.set { r.rt with held := true }
      let _ ← State.writeAcquired r.rt.holder r.rt.token
      r.ungate

/-- `Renewer.tickReacquire`. -/
def tickReacquire (r : Renewer) : Prog HelperSig Renewer := do
  let (_, r) ← r.hold
  let deadline ← r.tickCtx
  let started ← now
  let ans ← LeaseClient.acquire r.cfg.key r.rt.holder r.cfg.ttl
  r.reacquired deadline started ans

/-- `Renewer.shutdown`. -/
def shutdown (r : Renewer) : Prog HelperSig Unit := do
  if r.cfg.releaseOnShutdown = some true ∧ r.rt.held = true then
    let _ ← LeaseClient.release r.cfg.key r.rt.holder r.rt.token
    return ()
  else return ()

/-- The expiry timer of the loop, armed while a confirmed lease is held. -/
def expiryTimer (r : Renewer) : Prog HelperSig (Option Duration) := do
  if r.rt.held ∧ r.rt.expiresAt ≠ zeroTime then return some (r.rt.expiresAt - (← now))
  else return none

/-- The loop of `Renewer.Run`; `none` means it is still going. -/
def loop : Nat → Renewer → Prog HelperSig (Option (Except Err Unit))
  | 0, _ => return none
  | n + 1, r => do
    let timer ← r.expiryTimer
    match ← select timer with
    | .done =>
      r.shutdown
      return some (.ok ())
    | .expiry =>
      let r ← r.lose
      loop n r
    | .tick =>
      let r ← if r.rt.held then r.tickHeld else r.tickReacquire
      loop n r

/-- The confirmation of a handoff before the loop. -/
def confirm (r : Renewer) : Prog HelperSig Renewer := do
  if r.rt.held then
    if ← ctxErr then return r else r.tickHeld
  else return r

/-- `Renewer.Run`. -/
def run (n : Nat) (r : Renewer) : Prog HelperSig (Option (Except Err Unit)) := do
  let r ← r.loadHandoff
  let (err, r) ← r.hold
  match err with
  | .error e => return some (.error (.wrap "enforce before confirming lease handoff" e))
  | .ok () =>
    let r ← r.confirm
    loop n r

end Renewer

/-! ## The init container -/

/-- The pause between two attempts; `retry` is the rest of the loop. -/
def pause (cfg : Config) (retry : Prog HelperSig (Option (Except Err AcquireResult))) :
    Prog HelperSig (Option (Except Err AcquireResult)) := do
  if ← sleep cfg.retryInterval then retry
  else return some (.error (.new "context canceled"))

/-- What `Hold` does once it has the lease. -/
def handOff (cfg : Config) (res : AcquireResult) :
    Prog HelperSig (Option (Except Err AcquireResult)) := do
  match ← State.writeAcquired cfg.holder res.fencingToken with
  | .error e => return some (.error (.wrap "persist lease state" e))
  | .ok () =>
    match ← installCheckBinary with
    | .error e => return some (.error (.wrap "install check binary" e))
    | .ok () => return some (.ok res)

/-- `Hold`; `none` means it is still waiting. -/
def hold (cfg : Config) : Nat → Prog HelperSig (Option (Except Err AcquireResult))
  | 0 => return none
  | n + 1 => do
    match ← LeaseClient.acquire cfg.key cfg.holder cfg.ttl with
    | .ok res => if res.acquired then handOff cfg res else pause cfg (hold cfg n)
    | .error _ => pause cfg (hold cfg n)

end Berth.Acquire
