/-
Berth.Acquire.Fleet — many sidecars, one lease, one server.

The machine of the injected helpers. Its shared state is the lease server
with everything in flight (a pool of its own), and for every Pod the
state directory, the sidecar process that is running and what that
process believes. A process is a thread: it crashes by never being
scheduled again and restarts as a new thread, which takes the ownership
of the Pod's runtime state from the old one. A Pod whose sidecar began
its shutdown Release is not restarted.

A step of the server, or a call on it by anyone else, is a step of the
environment; so are changes of the state directories. Requests of a
process that is gone stay with the server.
-/
import Berth.Acquire.Renewer
import Mathlib.Logic.Function.Basic

namespace Berth.Acquire

open Berth.Interleave Berth.Lease Berth.Api Berth.Client

variable {ι : Type} [DecidableEq ι]

/-! ## Pods -/

/-- The Pods that contend for one lease: each has its own holder, a TTL
in whole seconds that the API accepts, and a shorter heartbeat. -/
structure Fleet (ι : Type) where
  key : Key
  config : ι → Config
  identity : ι → Option Tenant.Identity
  ttlSeconds : ι → Int
  config_key : ∀ j, (config j).key = key
  config_ttl : ∀ j, (config j).ttl = ttlSeconds j * second
  ttl_pos : ∀ j, 0 < ttlSeconds j
  ttl_max : ∀ j, ttlSeconds j ≤ maxInt32
  heartbeat_pos : ∀ j, 0 < (config j).heartbeatInterval
  heartbeat_lt : ∀ j, (config j).heartbeatInterval < (config j).ttl
  holder_inj : ∀ i j, (config i).holder = (config j).holder → i = j

/-- The holder of Pod `j`. -/
def Fleet.holder (F : Fleet ι) (j : ι) : String := (F.config j).holder

/-- The TTL of Pod `j`. -/
def Fleet.ttl (F : Fleet ι) (j : ι) : Duration := (F.config j).ttl

/-- Contents of a state directory; the health marker is its mtime. -/
structure StateDir where
  holder : Option String := none
  token : Option String := none
  healthy : Option Time := none
  deriving DecidableEq, Repr

namespace StateDir

def read (d : StateDir) : StateFile → Option String
  | .holder => d.holder
  | .token => d.token
  | .healthy => d.healthy.map fun _ => "ok\n"

def write (d : StateDir) (now : Time) (data : String) : StateFile → StateDir
  | .holder => { d with holder := some data }
  | .token => { d with token := some data }
  | .healthy => { d with healthy := some now }

def erase (d : StateDir) : StateFile → StateDir
  | .holder => { d with holder := none }
  | .token => { d with token := none }
  | .healthy => { d with healthy := none }

end StateDir

/-- One Pod: its directory, the thread that is its sidecar, that sidecar's
runtime state, and whether a shutdown Release was begun. -/
structure Pod where
  dir : StateDir := {}
  owner : Option Nat := none
  rt : Runtime := {}
  releasing : Bool := false
  deriving DecidableEq, Repr

/-- The server and all Pods. -/
structure Site (ι : Type) (cfg : Server.Config) where
  server : Pool (Server.machine cfg)
  pods : ι → Pod

variable {cfg : Server.Config}

namespace Site

def clock (s : Site ι cfg) : Time := s.server.shared.clock

/-- Change Pod `j`. -/
def update (s : Site ι cfg) (j : ι) (f : Pod → Pod) : Site ι cfg :=
  { s with pods := Function.update s.pods j (f (s.pods j)) }

/-- Change the state directory of Pod `j`. -/
def setDir (s : Site ι cfg) (j : ι) (d : StateDir) : Site ι cfg :=
  s.update j fun p => { p with dir := d }

end Site

/-! ## Processes -/

/-- A container's process: the init container or the sidecar, with the
number of iterations it gets to do. -/
inductive Process where
  | init (n : Nat)
  | sidecar (n : Nat)
  deriving DecidableEq, Repr

def Process.isSidecar : Process → Bool
  | .init _ => false
  | .sidecar _ => true

/-- Start process `what` in Pod `pod`. -/
structure Start (ι : Type) where
  pod : ι
  what : Process

/-- What a process returns. -/
inductive Exit where
  | init (r : Option (Except Err AcquireResult))
  | sidecar (r : Option (Except Err Unit))

def process (F : Fleet ι) (c : Start ι) : Prog HelperSig Exit :=
  match c.what with
  | .init n => do return .init (← hold (F.config c.pod) n)
  | .sidecar n => do return .sidecar (← (Renewer.new (F.config c.pod)).run n)

/-- The scheduler's decisions. -/
inductive Choice where
  | ok
  | fail (e : Err)
  | absent
  | flag (b : Bool)
  | processes (pids : List Nat)
  | event (e : Event)

/-- The request is a Release. -/
def isRelease : Endpoint → Bool
  | .release _ => true
  | _ => false

/-- Thread `i` is still the process it was started as. -/
def alive (c : Start ι) (i : Nat) (s : Site ι cfg) : Bool :=
  !c.what.isSidecar || (s.pods c.pod).owner == some i

/-- One effect of a live process. -/
def execLive (F : Fleet ι) (ch : Choice) :
    (o : HelperOp) → Start ι → Site ι cfg → Option (o.Res × Site ι cfg)
  | .now, _, s => some (s.clock, s)
  | .readFile f, c, s =>
    match ch with
    | .ok =>
      match (s.pods c.pod).dir.read f with
      | some data => some (.ok data, s)
      | none => some (.error (.new "file does not exist"), s)
    | .fail e => some (.error e, s)
    | _ => none
  | .mkdirAll, _, s =>
    match ch with
    | .ok => some (.ok (), s)
    | .fail e => some (.error e, s)
    | _ => none
  | .writeFileAtomic f data, c, s =>
    match ch with
    | .ok => some (.ok (), s.setDir c.pod ((s.pods c.pod).dir.write s.clock data f))
    | .fail e => some (.error e, s)
    | _ => none
  | .remove f, c, s =>
    match ch with
    | .ok =>
      match (s.pods c.pod).dir.read f with
      | some _ => some (.ok (), s.setDir c.pod ((s.pods c.pod).dir.erase f))
      | none => some (.error .absent, s)
    | .fail e => some (.error (.other e), s)
    | _ => none
  | .installCheckBinary, _, s =>
    match ch with
    | .ok => some (.ok (), s)
    | .fail e => some (.error e, s)
    | _ => none
  | .findProcesses, _, s =>
    match ch with
    | .processes pids => some (.ok pids, s)
    | .fail e => some (.error e, s)
    | _ => none
  | .kill _ _, _, s =>
    match ch with
    | .ok => some (.ok (), s)
    | .absent => some (.error .absent, s)
    | .fail e => some (.error (.other e), s)
    | _ => none
  | .ctxErr, _, s =>
    match ch with
    | .flag b => some (b, s)
    | _ => none
  | .rpcCtxErr _, _, s =>
    match ch with
    | .flag b => some (b, s)
    | _ => none
  | .sleep _, _, s =>
    match ch with
    | .flag b => some (b, s)
    | _ => none
  | .post key endpoint, c, s =>
    let sent := submit s.server ⟨F.identity c.pod, key, endpoint⟩
    let s' := s.update c.pod fun p => { p with releasing := p.releasing || isRelease endpoint }
    some (sent.1, { s' with server := sent.2 })
  | .await id, _, s =>
    match ch with
    | .ok => (reply? s.server id).map fun resp => (.ok resp, s)
    | .fail e => some (.error e, s)
    | _ => none
  | .select expiry, _, s =>
    match ch with
    | .event .expiry => if expiry.isSome then some (.expiry, s) else none
    | .event e => some (e, s)
    | _ => none
  | .assign rt, c, s =>
    if c.what.isSidecar then some ((), s.update c.pod fun p => { p with rt := rt }) else none

/-- One effect of thread `i`. -/
def exec (F : Fleet ι) (i : Nat) (ch : Choice) (o : HelperOp) (c : Start ι) (s : Site ι cfg) :
    Option (o.Res × Start ι × Site ι cfg) :=
  if alive c i s then (execLive F ch o c s).map fun x => (x.1, c, x.2) else none

/-- A process enters its Pod. -/
def enter (n : Nat) (c : Start ι) (s : Site ι cfg) : Option (Start ι × Site ι cfg) :=
  if c.what.isSidecar then
    if (s.pods c.pod).releasing then none
    else some (c, s.update c.pod fun p => { p with owner := some n, rt := {} })
  else some (c, s)

/-! ## The environment -/

/-- A call on the server that is not for a Pod's holder on the contended
lease. -/
structure ForeignCall (F : Fleet ι) where
  call : Server.Call
  foreign : ∀ op, call.op = some op → op.key? = some F.key → ∀ j, op.holder? ≠ some (F.holder j)

/-- Steps that belong to no process. -/
inductive Env (F : Fleet ι) where
  /-- someone else calls the server -/
  | call (c : ForeignCall F)
  /-- the server works on request `i` -/
  | serve (i : Nat) (ch : Server.Choice)
  | tick (t : Time)
  /-- a state directory changes by other hands -/
  | disk (j : ι) (d : StateDir)

/-- The step of the server that an environment step takes, if any. -/
def Env.action? {F : Fleet ι} : Env F → Option (Action (Server.machine cfg))
  | .call c => some (.spawn c.call)
  | .serve i ch => some (.exec i ch)
  | .tick t => some (.env t)
  | .disk _ _ => none

def envStep {F : Fleet ι} (e : Env F) (s : Site ι cfg) : Option (Site ι cfg) :=
  match e with
  | .disk j d => some (s.setDir j d)
  | e => e.action?.bind fun a => (s.server.step a).map fun p => { s with server := p }

/-- The helpers: threads are processes. -/
def machine (F : Fleet ι) (cfg : Server.Config) : Machine HelperSig where
  Call := Start ι
  Out := Exit
  Loc := Start ι
  State := Site ι cfg
  Choice := Choice
  Env := Env F
  prog := process F
  start := enter
  exec := exec F
  env := envStep

/-- Nothing has been started yet; the directories hold anything. -/
def Site.new (cfg : Server.Config) (t : Time) (dirs : ι → StateDir) : Site ι cfg :=
  { server := Server.fresh cfg t, pods := fun j => { dir := dirs j } }

abbrev fresh (F : Fleet ι) (cfg : Server.Config) (t : Time) (dirs : ι → StateDir) :
    Pool (machine F cfg) := Pool.empty (Site.new cfg t dirs)

/-- The runtime state says the gate may be open: a held lease with a
confirmed deadline that has not passed. -/
def Runtime.isOpen (rt : Runtime) (now : Time) : Bool :=
  rt.held && rt.expiresAt != zeroTime && decide (now < rt.expiresAt)

end Berth.Acquire
