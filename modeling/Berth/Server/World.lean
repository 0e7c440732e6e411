/-
Berth.Server.World — one store, one clock and any number of calls.

The machine of the lease server. Its shared state is the store, the
clock and, as a ghost, the log of successful writes. Its calls are the
manager's operations, the sweep and HTTP requests to the lease
endpoints; each runs as a thread of a `Pool`, one store operation or
clock reading at a time.

The scheduler decides what the code cannot know: a backend fault before
or after the write was applied, the order of a listing, the clock
reading and whether the context is done. With `ClockMode.skewed` a
reading is any instant at all, with `ClockMode.single` it is the shared
clock, which never goes back. A thread that is never scheduled again
models a lost or abandoned request.
-/
import Berth.Interleave.Pool
import Berth.Lease.MemStore
import Berth.Lease.History
import Berth.Api.Leases

namespace Berth.Server

open Berth.Interleave Berth.Lease Berth.Tenant Berth.Api

/-! ## Calls -/

/-- What can be asked of the server. -/
inductive Call where
  | acquire (key : Key) (holder : String) (ttl : Duration)
  | renew (key : Key) (holder : String) (token : Int) (ttl : Duration)
  | release (key : Key) (holder : String) (token : Int)
  | collect (e : TTLEnforcer)
  | http (req : HttpRequest)

/-- The manager operation an HTTP request asks for, when its body was
decoded. -/
def requestOp (req : HttpRequest) : Option LeaseOp :=
  match req.endpoint with
  | .acquire (.ok body) => some (.acquire req.key body.holder (body.ttlSeconds * second))
  | .renew (.ok body) =>
    some (.renew req.key body.holder body.fencingToken (body.ttlSeconds * second))
  | .release (.ok body) => some (.release req.key body.holder body.fencingToken)
  | _ => none

/-- The operation a call asks for. -/
def Call.op : Call → Option LeaseOp
  | .acquire key holder ttl => some (.acquire key holder ttl)
  | .renew key holder token ttl => some (.renew key holder token ttl)
  | .release key holder token => some (.release key holder token)
  | .collect e => some (.collect e.grace)
  | .http req => requestOp req

/-- What a call returns. -/
inductive Outcome where
  | result (r : Except Err AcquireResult)
  | released (r : Except Err Unit)
  | swept (n : Nat)
  | response (r : Response)

/-! ## State -/

inductive ClockMode where
  | skewed
  | single
  deriving DecidableEq, Repr

/-- `careful` leaves out the runs with a write attempt that is not
`World.prudent`. -/
structure Config where
  clock : ClockMode
  authz : Option Authorizer
  careful : Bool

/-- The shared state; `writes` is the ghost log, newest first. -/
structure World where
  store : MemStore
  clock : Time
  writes : List (Write Call)

/-- The empty store at time `t`. -/
def World.new (t : Time) : World := { store := .new, clock := t, writes := [] }

/-- Ghost bookkeeping of one call. Counts are numbers of writes that had
landed: when the call began, at its last read and at its latest
operation. `window` is the pair (read, write) of its latest attempt. -/
structure Loc where
  call : Call
  invokedAt : Time
  started : Nat
  readAt : Nat
  last : Nat
  window : Option (Nat × Nat)
  reading : Option Time

def Loc.start (c : Call) (w : World) : Loc :=
  { call := c, invokedAt := w.clock, started := w.writes.length, readAt := w.writes.length
    last := w.writes.length, window := none, reading := none }

def Loc.touch (l : Loc) (w : World) : Loc := { l with last := w.writes.length }

def Loc.read (l : Loc) (w : World) : Loc :=
  { l with readAt := w.writes.length, last := w.writes.length }

def Loc.stamp (l : Loc) (w : World) (t : Time) : Loc :=
  { l with reading := some t, last := w.writes.length }

/-- After an attempt to write that took the world from `w` to `w'`. -/
def Loc.attempt (l : Loc) (w w' : World) : Loc :=
  { l with window := some (l.readAt, w.writes.length), last := w'.writes.length }

/-! ## Steps -/

/-- The scheduler's decisions. -/
inductive Choice where
  /-- the store answers -/
  | answer
  /-- the store fails without effect -/
  | fault (e : Err)
  /-- the write is applied as the store would, but the caller sees a failure -/
  | late (e : Err)
  /-- a listing comes in this order -/
  | order (rs : List Record)
  | clock (t : Time)
  | done (b : Bool)

/-- A backend failure is neither of the store's two sentinels. -/
def backendFault (e : Err) : Bool := !e.is .notFound && !e.is .conflict

/-- The log entry of a successful `Put`. -/
def World.entry (w : World) (i : Nat) (l : Loc) (expectedVersion : Int) (rec : Record) :
    Write Call :=
  { tid := i, call := l.call, op := l.call.op, reading := l.reading, landed := w.clock
    old := w.store.lookup rec.key, new := { rec with version := expectedVersion + 1 } }

/-- `Store.Put`, with the log. -/
def World.put (w : World) (i : Nat) (l : Loc) (expectedVersion : Int) (rec : Record) :
    Except Err Unit × World :=
  match w.store.put expectedVersion rec with
  | (.ok (), s) =>
    (.ok (), { w with store := s, writes := w.entry i l expectedVersion rec :: w.writes })
  | (.error e, _) => (.error e, w)

/-- The attempt neither shortens a tenure it continues nor is a release
that comes too late for the record it read but finds the tenure it wanted
to end. -/
def World.prudent (w : World) (l : Loc) (expectedVersion : Int) (rec : Record) : Bool :=
  match w.store.lookup rec.key with
  | none => true
  | some r =>
    if MemStore.permits (some r) expectedVersion then
      !(decide (HeldBy rec.holder rec.fencingToken (some r)) &&
        decide (rec.expiresAt < r.expiresAt))
    else
      match l.call.op with
      | some (.release _ holder token) => !decide (HeldBy holder token (some r))
      | _ => true

/-- The write attempts a configuration looks at. -/
def Config.lets (cfg : Config) (l : Loc) (w : World) (expectedVersion : Int) (rec : Record) : Bool :=
  !cfg.careful || w.prudent l expectedVersion rec

/-- The readings the clock mode allows. -/
def Config.reads (cfg : Config) (w : World) (t : Time) : Bool :=
  match cfg.clock with
  | .skewed => true
  | .single => t == w.clock

/-- One operation of thread `i`. -/
def exec (cfg : Config) (i : Nat) (ch : Choice) :
    (o : StoreOp) → Loc → World → Option (o.Res × Loc × World)
  | .get key, l, w =>
    match ch with
    | .answer => some (w.store.get key, l.read w, w)
    | .fault e => if backendFault e then some (Except.error e, l.read w, w) else none
    | _ => none
  | .list, l, w =>
    match ch with
    | .order rs => if rs.isPerm w.store.list then some (Except.ok rs, l.read w, w) else none
    | .fault e => if backendFault e then some (Except.error e, l.read w, w) else none
    | _ => none
  | .put expectedVersion rec, l, w =>
    let (res, w') := w.put i l expectedVersion rec
    match ch with
    | .answer => if cfg.lets l w expectedVersion rec then some (res, l.attempt w w', w') else none
    | .fault e => if backendFault e then some (Except.error e, l.attempt w w, w) else none
    | .late e =>
      if backendFault e && cfg.lets l w expectedVersion rec then
        some (Except.error e, l.attempt w w', w')
      else none
    | _ => none
  | .now, l, w =>
    match ch with
    | .clock t => if cfg.reads w t then some (t, l.stamp w t, w) else none
    | _ => none
  | .ctxDone, l, w =>
    match ch with
    | .done b => some (b, l.touch w, w)
    | _ => none

/-- The program of a call. -/
def prog (cfg : Config) : Call → Prog StoreSig Outcome
  | .acquire key holder ttl => do return .result (← Manager.acquire key holder ttl)
  | .renew key holder token ttl => do return .result (← Manager.renew key holder token ttl)
  | .release key holder token => do return .released (← Manager.release key holder token)
  | .collect e => do return .swept (← TTLEnforcer.collect e)
  | .http req => do return .response (← handle cfg.authz req)

/-- The server: threads are calls, the environment moves the clock. -/
def machine (cfg : Config) : Machine StoreSig where
  Call := Call
  Out := Outcome
  Loc := Loc
  State := World
  Choice := Choice
  Env := Time
  prog := prog cfg
  start := fun _ c w => some (.start c w, w)
  exec := exec cfg
  env := fun t w => if w.clock ≤ t then some { w with clock := t } else none

/-- A server that has just started at time `t`. -/
abbrev fresh (cfg : Config) (t : Time) : Pool (machine cfg) := Pool.empty (World.new t)

end Berth.Server
