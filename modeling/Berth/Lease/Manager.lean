/-
Berth.Lease.Manager — acquire, renew, release and the sweep, as programs
over store operations (`internal/lease/manager.go`,
`internal/lease/ttl.go`).

Every call to the store and every reading of the clock is one operation
of `StoreSig`, in the order in which the code makes them, so that other
calls can act between a read and the write that depends on it.
`Manager.acquire` keeps the source's bounded retry loop, `decideAcquire`
is its switch. Logging is left out.
-/
import Berth.Interleave.Prog
import Berth.Lease.Record

namespace Berth.Lease

open Berth.Interleave

/-! ## Store operations -/

/-- What the lease code does to the outside: the `Store` interface, the
clock and `ctx.Err()`. -/
inductive StoreOp where
  | get (key : Key)
  | list
  | put (expectedVersion : Int) (rec : Record)
  | now
  | ctxDone
  deriving DecidableEq

def StoreOp.Res : StoreOp → Type
  | .get _ => Except Err Record
  | .list => Except Err (List Record)
  | .put _ _ => Except Err Unit
  | .now => Time
  | .ctxDone => Bool

def StoreSig : Sig := ⟨StoreOp, StoreOp.Res⟩

instance : DecidableEq StoreSig.Op := inferInstanceAs (DecidableEq StoreOp)

namespace Store

def get (key : Key) : Prog StoreSig (Except Err Record) := Prog.perform (S := StoreSig) (.get key)

def list : Prog StoreSig (Except Err (List Record)) := Prog.perform (S := StoreSig) .list

def put (expectedVersion : Int) (rec : Record) : Prog StoreSig (Except Err Unit) :=
  Prog.perform (S := StoreSig) (.put expectedVersion rec)

def now : Prog StoreSig Time := Prog.perform (S := StoreSig) .now

def ctxDone : Prog StoreSig Bool := Prog.perform (S := StoreSig) .ctxDone

end Store

/-! ## Results -/

/-- `AcquireResult`. -/
structure AcquireResult where
  acquired : Bool
  holder : String := ""
  fencingToken : Int := 0
  expiresAt : Time := zeroTime
  acquiredAt : Time := zeroTime
  deriving DecidableEq, Repr

/-- The result that describes a stored record. -/
def Record.toResult (r : Record) (acquired : Bool) : AcquireResult :=
  { acquired := acquired, holder := r.holder, fencingToken := r.fencingToken
    expiresAt := r.expiresAt, acquiredAt := r.acquiredAt }

namespace Manager

/-! ## Acquire -/

def maxAcquireAttempts : Nat := 8

/-- What the switch in `Manager.Acquire` decides. -/
inductive Decision where
  /-- write a record under this token, expecting this version -/
  | claim (expected token : Int) (acquiredAt : Time)
  /-- the token is at the `int32` ceiling -/
  | exhausted
  /-- another holder has the lease -/
  | heldBy (cur : Record)
  deriving DecidableEq, Repr

/-- The switch in `Manager.Acquire`. -/
def decideAcquire (cur : Option Record) (holder : String) (now : Time) : Decision :=
  match cur with
  | none => .claim 0 1 now
  | some cur =>
    if cur.holder == holder && !cur.expired now then
      .claim cur.version cur.fencingToken cur.acquiredAt
    else if cur.tombstone || cur.expired now then
      -- int32 is a domain bound: refuse at the ceiling instead of wrapping
      if cur.fencingToken = maxInt32 then .exhausted
      else .claim cur.version (cur.fencingToken + 1) now
    else .heldBy cur

/-- One pass of the loop after the read; `retry` is the rest of the loop. -/
def acquireAttempt (key : Key) (holder : String) (ttl : Duration) (cur : Option Record)
    (retry : Prog StoreSig (Except Err AcquireResult)) :
    Prog StoreSig (Except Err AcquireResult) := do
  let now ← Store.now
  match decideAcquire cur holder now with
  | .heldBy r => return .ok (r.toResult false)
  | .exhausted =>
    return .error (.new ("acquire: fencing token for " ++ key.ns ++ "/" ++ key.name ++
      " exhausted at int32 ceiling (2147483647); lease cannot be safely reacquired"))
  | .claim expected token acquiredAt =>
    let next : Record :=
      { key := key, holder := holder, ttl := ttl, acquiredAt := acquiredAt
        renewedAt := now, fencingToken := token, version := 0 }
    match ← Store.put expected next with
    | .error e => if e.is .conflict then retry else return .error (.wrap "acquire: put" e)
    | .ok () => return .ok (next.toResult true)

/-- The compare-and-swap loop of `Manager.Acquire`. -/
def acquireLoop (key : Key) (holder : String) (ttl : Duration) :
    Nat → Prog StoreSig (Except Err AcquireResult)
  | 0 => return .error (.new "acquire: exhausted retries")
  | n + 1 => do
    match ← Store.get key with
    | .ok cur => acquireAttempt key holder ttl (some cur) (acquireLoop key holder ttl n)
    | .error e =>
      if e.is .notFound then
        acquireAttempt key holder ttl none (acquireLoop key holder ttl n)
      else return .error (.wrap "acquire: get" e)

/-- `Manager.Acquire`. -/
def acquire (key : Key) (holder : String) (ttl : Duration) :
    Prog StoreSig (Except Err AcquireResult) :=
  match validateKey key with
  | .error e => return .error (.wrap "acquire" e)
  | .ok () =>
    match validateHolder holder with
    | .error e => return .error (.wrap "acquire" e)
    | .ok () =>
      if ttl ≤ 0 then return .error (.new "acquire: ttl must be positive")
      else acquireLoop key holder ttl maxAcquireAttempts

/-! ## Renew -/

/-- `Manager.renewalLost`: report whoever won the key, or the stale
record when the second read fails. -/
def renewalLost (key : Key) (stale : Record) : Prog StoreSig AcquireResult := do
  match ← Store.get key with
  | .ok cur => return cur.toResult false
  | .error _ => return stale.toResult false

/-- `Manager.Renew` once its arguments are accepted. -/
def renewHeld (key : Key) (holder : String) (token : Int) (ttl : Duration) :
    Prog StoreSig (Except Err AcquireResult) := do
  match ← Store.get key with
  | .error e =>
    if e.is .notFound then return .ok { acquired := false }
    else return .error (.wrap "renew: get" e)
  | .ok cur =>
    let now ← Store.now
    if cur.holder ≠ holder ∨ cur.fencingToken ≠ token ∨ cur.expired now then
      return .ok (cur.toResult false)
    else
      let next : Record := { cur with renewedAt := now, ttl := ttl }
      match ← Store.put cur.version next with
      | .error e =>
        if e.is .conflict then do
          let res ← renewalLost key cur
          return .ok res
        else return .error (.wrap "renew: put" e)
      | .ok () => return .ok { next.toResult true with holder := holder }

/-- `Manager.Renew`. -/
def renew (key : Key) (holder : String) (token : Int) (ttl : Duration) :
    Prog StoreSig (Except Err AcquireResult) :=
  match validateKey key with
  | .error e => return .error (.wrap "renew" e)
  | .ok () =>
    match validateHolder holder with
    | .error e => return .error (.wrap "renew" e)
    | .ok () =>
      if token ≤ 0 then return .error (.new "renew: token must be positive")
      else if ttl ≤ 0 then return .error (.new "renew: ttl must be positive")
      else renewHeld key holder token ttl

/-! ## Release -/

/-- `tombstoneFrom`: holder cleared, token kept as the high-water mark. -/
def tombstoneFrom (cur : Record) (now : Time) : Record :=
  { key := cur.key, holder := "", ttl := 0, acquiredAt := cur.acquiredAt
    renewedAt := now, fencingToken := cur.fencingToken, version := 0 }

/-- `Manager.Release` once its arguments are accepted. -/
def releaseHeld (key : Key) (holder : String) (token : Int) :
    Prog StoreSig (Except Err Unit) := do
  match ← Store.get key with
  | .error e =>
    if e.is .notFound then return .ok () else return .error (.wrap "release: get" e)
  | .ok cur =>
    if cur.tombstone then return .ok ()
    else if cur.holder ≠ holder ∨ cur.fencingToken ≠ token then return .error errConflict
    else do
      let now ← Store.now
      match ← Store.put cur.version (tombstoneFrom cur now) with
      | .error e =>
        -- a lost compare-and-swap counts as released
        if e.is .conflict then return .ok ()
        else return .error (.wrap "release: put tombstone" e)
      | .ok () => return .ok ()

/-- `Manager.Release`. -/
def release (key : Key) (holder : String) (token : Int) : Prog StoreSig (Except Err Unit) :=
  match validateKey key with
  | .error e => return .error (.wrap "release" e)
  | .ok () =>
    if holder = "" then return .error (.new "release: holder is required")
    else releaseHeld key holder token

end Manager

/-! ## The sweep -/

/-- `defaultGCGrace`. -/
def defaultGCGrace : Duration := 300 * second

/-- `TTLEnforcer`: its grace is positive, however it is configured. The
interval only paces `Run`. -/
structure TTLEnforcer where
  grace : Duration
  grace_pos : 0 < grace
  deriving DecidableEq

namespace TTLEnforcer

/-- `NewTTLEnforcer`. -/
def new (grace : Duration) : TTLEnforcer :=
  if h : grace ≤ 0 then ⟨defaultGCGrace, by decide⟩ else ⟨grace, Int.not_le.mp h⟩

/-- The loop of `TTLEnforcer.collect` over the scanned records, with the
number swept so far. -/
def collectLoop (now : Time) (grace : Duration) : List Record → Nat → Prog StoreSig Nat
  | [], swept => return swept
  | r :: rest, swept =>
    if r.tombstone || decide (now < r.expiresAt + grace) then collectLoop now grace rest swept
    else do
      match ← Store.put r.version (Manager.tombstoneFrom r now) with
      | .ok () => collectLoop now grace rest (swept + 1)
      | .error e =>
        if e.is .conflict then collectLoop now grace rest swept
        else do
          if ← Store.ctxDone then return swept
          else collectLoop now grace rest swept

/-- `TTLEnforcer.collect`. -/
def collect (e : TTLEnforcer) : Prog StoreSig Nat := do
  match ← Store.list with
  | .error _ => return 0
  | .ok records => do
    let now ← Store.now
    collectLoop now e.grace records 0

end TTLEnforcer

end Berth.Lease
