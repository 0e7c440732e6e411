/-
Berth.Acquire.Helper — what the injected helper is configured with and
what it can do to its surroundings (`internal/acquire/config.go`,
`state.go`, `enforce.go`).

The helper's programs are written over `HelperSig`: files of the shared
state directory, signals, the clock, contexts, timers and HTTP requests.
`assign` publishes the renewer's runtime state after each assignment of
the source, so that what the sidecar believes at an instant is part of
the state that instant.
-/
import Berth.Interleave.Prog
import Berth.Lease.Decimal
import Berth.Api.Leases

namespace Berth.Acquire

open Berth.Interleave Berth.Lease Berth.Api

/-! ## Configuration -/

/-- `Mode`; an unknown text is kept as it is. -/
inductive Mode where
  | startupGate
  | runtimeSingleton
  | other (text : String)
  deriving DecidableEq, Repr

/-- `Enforce`; an unknown text is kept as it is. -/
inductive Enforce where
  | probe
  | signal
  | other (text : String)
  deriving DecidableEq, Repr

/-- `Config`. -/
structure Config where
  leaseName : String
  leaseNamespace : String
  mode : Mode := .runtimeSingleton
  enforce : Enforce := .probe
  ttl : Duration
  heartbeatInterval : Duration
  enforceGrace : Duration := 0
  releaseOnShutdown : Option Bool := none
  holderIdentity : String := ""
  clusterID : String := ""
  podNamespace : String := ""
  podName : String := ""
  podUID : String := ""
  workloadKind : String := ""
  workloadName : String := ""
  signalTarget : String := ""
  stateDir : String := ""
  apiServer : String := ""
  apiKey : String := ""
  apiKeyFile : String := ""
  caBundleFile : String := ""
  serverName : String := ""
  insecureSkipVerify : Bool := false
  deriving DecidableEq, Repr

namespace Config

/-- The segments of the derived holder. -/
def holderParts (c : Config) : List String :=
  ([c.clusterID, c.podNamespace, c.workloadKind, c.workloadName].filter (· ≠ "")) ++
    match c.mode with
    | .startupGate =>
      if c.workloadKind = "" ∧ c.workloadName = "" then [c.podName].filter (· ≠ "") else []
    | _ => (if c.podName ≠ "" then ["pod", c.podName] else []) ++ ["uid", c.podUID]

/-- `Config.Holder`. -/
def holder (c : Config) : String :=
  if c.holderIdentity ≠ "" then c.holderIdentity
  else
    match c.holderParts with
    | [] => ""
    | [p] => p
    | p :: ps => p ++ "/" ++ ":".intercalate ps

/-- The lease the helper asks for. -/
def key (c : Config) : Key := ⟨c.leaseNamespace, c.leaseName⟩

/-- `Config.retryInterval`. -/
def retryInterval (c : Config) : Duration :=
  if 0 < c.heartbeatInterval then c.heartbeatInterval else c.ttl.tdiv 3

end Config

/-! ## Effects -/

/-- The runtime state of a `Renewer`. -/
structure Runtime where
  holder : String := ""
  token : Int := 0
  held : Bool := false
  expiresAt : Time := zeroTime
  deriving DecidableEq, Repr

/-- Files of the shared state directory. -/
inductive StateFile where
  | holder
  | token
  | healthy
  deriving DecidableEq, Repr

inductive Signal where
  | sigterm
  | sigkill
  deriving DecidableEq, Repr

/-- An error of `os.Remove` or `syscall.Kill`: the one the code tolerates
(`os.ErrNotExist`, `syscall.ESRCH`) or another. -/
inductive SysErr where
  | absent
  | other (e : Err)
  deriving DecidableEq, Repr

/-- What wakes the loop of `Renewer.Run`. -/
inductive Event where
  | done
  | expiry
  | tick
  deriving DecidableEq, Repr

/-- The helper's effects. -/
inductive HelperOp where
  | now
  | readFile (f : StateFile)
  | mkdirAll
  | writeFileAtomic (f : StateFile) (data : String)
  | remove (f : StateFile)
  | installCheckBinary
  | findProcesses
  | kill (pid : Nat) (sig : Signal)
  /-- `ctx.Err() != nil` -/
  | ctxErr
  /-- `rpcCtx.Err() != nil` for the context with this deadline -/
  | rpcCtxErr (deadline : Time)
  /-- send a request; the answer is its number -/
  | post (key : Key) (endpoint : Endpoint)
  /-- wait for the answer to a request, or give up -/
  | await (id : Nat)
  /-- the `select` of the loop, with the expiry timer if it is armed -/
  | select (expiry : Option Duration)
  /-- `sleep`: false when the context ended first -/
  | sleep (d : Duration)
  | assign (rt : Runtime)
  deriving DecidableEq

def HelperOp.Res : HelperOp → Type
  | .now => Time
  | .readFile _ => Except Err String
  | .mkdirAll | .writeFileAtomic _ _ | .installCheckBinary => Except Err Unit
  | .remove _ | .kill _ _ => Except SysErr Unit
  | .findProcesses => Except Err (List Nat)
  | .ctxErr | .rpcCtxErr _ | .sleep _ => Bool
  | .post _ _ => Nat
  | .await _ => Except Err Response
  | .select _ => Event
  | .assign _ => Unit

abbrev HelperSig : Sig := ⟨HelperOp, HelperOp.Res⟩

/-- The program of one effect. -/
def effect (o : HelperOp) : Prog HelperSig o.Res := Prog.perform (S := HelperSig) o

def now : Prog HelperSig Time := effect .now

def readFile (f : StateFile) : Prog HelperSig (Except Err String) := effect (.readFile f)

def mkdirAll : Prog HelperSig (Except Err Unit) := effect .mkdirAll

def writeFileAtomic (f : StateFile) (data : String) : Prog HelperSig (Except Err Unit) :=
  effect (.writeFileAtomic f data)

def remove (f : StateFile) : Prog HelperSig (Except SysErr Unit) := effect (.remove f)

def installCheckBinary : Prog HelperSig (Except Err Unit) := effect .installCheckBinary

def findProcesses : Prog HelperSig (Except Err (List Nat)) := effect .findProcesses

def kill (pid : Nat) (sig : Signal) : Prog HelperSig (Except SysErr Unit) :=
  effect (.kill pid sig)

def ctxErr : Prog HelperSig Bool := effect .ctxErr

def rpcCtxErr (deadline : Time) : Prog HelperSig Bool := effect (.rpcCtxErr deadline)

def post (key : Key) (endpoint : Endpoint) : Prog HelperSig Nat := effect (.post key endpoint)

def await (id : Nat) : Prog HelperSig (Except Err Response) := effect (.await id)

def select (expiry : Option Duration) : Prog HelperSig Event := effect (.select expiry)

def sleep (d : Duration) : Prog HelperSig Bool := effect (.sleep d)

def assign (rt : Runtime) : Prog HelperSig Unit := effect (.assign rt)

/-! ## State directory -/

/-- `unicode.IsSpace`. -/
def isSpace (c : Char) : Bool :=
  ['\t', '\n', '\x0b', '\x0c', '\r', ' ', '\u0085', '\u00a0', '\u1680', '\u2028', '\u2029', '\u202f',
    '\u205f', '\u3000'].contains c || ('\u2000' ≤ c && c ≤ '\u200a')

/-- `strings.TrimSpace`. -/
def trimSpace (s : String) : String :=
  String.ofList (((s.toList.dropWhile isSpace).reverse.dropWhile isSpace).reverse)

namespace State

/-- `State.MarkHealthy`. -/
def markHealthy : Prog HelperSig (Except Err Unit) := do
  match ← mkdirAll with
  | .error e => return .error (.wrap "create state dir" e)
  | .ok () =>
    match ← writeFileAtomic .healthy "ok\n" with
    | .error e => return .error (.wrap "write health marker" e)
    | .ok () => return .ok ()

/-- `State.MarkUnhealthy`: a marker that is already gone is fine. -/
def markUnhealthy : Prog HelperSig (Except Err Unit) := do
  match ← remove .healthy with
  | .error (.other e) => return .error (.wrap "remove health marker" e)
  | .error .absent => return .ok ()
  | .ok () => return .ok ()

/-- `State.WriteAcquired`. -/
def writeAcquired (holder : String) (token : Int) : Prog HelperSig (Except Err Unit) := do
  match ← mkdirAll with
  | .error e => return .error (.wrap "create state dir" e)
  | .ok () =>
    match ← writeFileAtomic .holder holder with
    | .error e => return .error (.wrap "write holder" e)
    | .ok () =>
      match ← writeFileAtomic .token (formatInt token) with
      | .error e => return .error (.wrap "write token" e)
      | .ok () => markHealthy

/-- `State.ReadHolder`. -/
def readHolder : Prog HelperSig (Except Err String) := readFile .holder

/-- `State.ReadToken`. -/
def readToken : Prog HelperSig (Except Err Int) := do
  match ← readFile .token with
  | .error e => return .error e
  | .ok b =>
    match parseInt32 (trimSpace b) with
    | none => return .error (.wrap ("parse token " ++ quote (trimSpace b))
        (.new "strconv.ParseInt: invalid syntax or value out of range"))
    | some n => return .ok n

end State

end Berth.Acquire
