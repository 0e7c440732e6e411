/-
Berth.Operator.Effects — what the operator can ask of its surroundings.

The reconcilers and the admission webhook talk to the Kubernetes API
server and to the central lease server. Both run elsewhere: every request
is one effect, and others may act between any two.

A write of a workload object is not one effect, because the API server
first sends it through admission, which reads other objects. `submit`
hands it in and `awaitWrite` waits for the outcome; `fetch` and `commit`
are the API server's own two steps around the webhook. A write of a
BerthLease has no webhook and is one effect.
-/
import Berth.Interleave.Prog
import Berth.Client.Leases
import Berth.Operator.Types

namespace Berth.Operator

open Berth.Interleave Berth.Lease Berth.Api Berth.Client

/-! ## Requests -/

/-- An error of the API server, as `apierrors` tells them apart. -/
inductive ApiErr where
  | notFound
  | conflict
  | other (e : Err)
  deriving DecidableEq, Repr

def ApiErr.err : ApiErr → Err
  | .notFound => .new "not found"
  | .conflict => .new "the object has been modified"
  | .other e => e

/-- `ctrlclient.IgnoreNotFound`. -/
def ApiErr.ignoreNotFound : ApiErr → Option Err
  | .notFound => none
  | e => some e.err

/-- The error of a call whose value is not needed. -/
def errOf {α : Type} : Except ApiErr α → Option Err
  | .error e => some e.err
  | .ok _ => none

/-- A write of a workload object: a CREATE, an UPDATE or a CREATE of the
binding subresource. -/
inductive ObjectWrite where
  | create (o : Object)
  | update (o : Object)
  | bind (key : Key) (uid node : String)
  deriving DecidableEq

/-- The parts of an admission request that the webhook reads; there is an
old object exactly on UPDATE. -/
structure AdmissionRequest where
  object : Object
  old : Option Object
  user : String
  dryRun : Bool
  deriving DecidableEq

/-- What the API server asks the webhook about. -/
inductive Review where
  | object (req : AdmissionRequest)
  | binding (key : Key) (uid node : String)
  deriving DecidableEq

/-- The webhook's answer. An admitted object comes with the UID of the
lease it is bound to, empty for none, and a gate removal with the lease
and the instant that were checked. -/
inductive Verdict where
  | denied (e : Err)
  | allowed (binding : String) (permit : Option (BerthLease × Time))
  deriving DecidableEq

/-! ## Effects -/

inductive ClusterOp where
  /-- `time.Now()` -/
  | now
  | getLease (key : Key)
  | listLeases (ns : String)
  /-- `Status().Update`; the answer is the stored object -/
  | updateStatus (l : BerthLease)
  /-- `Update` of a BerthLease -/
  | updateLease (l : BerthLease)
  | getObject (key : ObjectKey)
  /-- a LIST of one kind in one namespace, with the value of the
  `ManagedUID` label if the list selects by it -/
  | listObjects (apiVersion kind ns : String) (label : Option String)
  | submit (o : Object)
  | awaitWrite (id : Nat)
  /-- a DELETE with the object's UID as precondition -/
  | deleteObject (o : Object)
  /-- send a request to the central server on behalf of a lease -/
  | post (l : BerthLease) (key : Key) (endpoint : Endpoint)
  /-- wait for the central server's answer for so long -/
  | await (id : Nat) (budget : Duration)
  | fetch (id : Nat)
  | commit (id : Nat) (review : Review) (verdict : Verdict)
  /-- a reconcile pass returns to the work queue -/
  | finish
  deriving DecidableEq

def ClusterOp.Res : ClusterOp → Type
  | .now => Time
  | .getLease _ | .updateStatus _ | .updateLease _ => Except ApiErr BerthLease
  | .listLeases _ => Except ApiErr (List BerthLease)
  | .getObject _ => Except ApiErr Object
  | .listObjects _ _ _ _ => Except ApiErr (List Object)
  | .submit _ => Nat
  | .awaitWrite _ | .deleteObject _ => Except ApiErr Unit
  | .post _ _ _ => Nat
  | .await _ _ => Except Err Response
  | .fetch _ => Option Review
  | .commit _ _ _ | .finish => Unit

abbrev ClusterSig : Sig := ⟨ClusterOp, ClusterOp.Res⟩

/-- The program of one effect. -/
def effect (o : ClusterOp) : Prog ClusterSig o.Res := Prog.perform (S := ClusterSig) o

def now : Prog ClusterSig Time := effect .now

def getLease (key : Key) : Prog ClusterSig (Except ApiErr BerthLease) := effect (.getLease key)

def listLeases (ns : String) : Prog ClusterSig (Except ApiErr (List BerthLease)) :=
  effect (.listLeases ns)

def updateStatus (l : BerthLease) : Prog ClusterSig (Except ApiErr BerthLease) :=
  effect (.updateStatus l)

def updateLease (l : BerthLease) : Prog ClusterSig (Except ApiErr BerthLease) :=
  effect (.updateLease l)

def getObject (key : ObjectKey) : Prog ClusterSig (Except ApiErr Object) :=
  effect (.getObject key)

def listObjects (apiVersion kind ns : String) (label : Option String) :
    Prog ClusterSig (Except ApiErr (List Object)) :=
  effect (.listObjects apiVersion kind ns label)

def submit (o : Object) : Prog ClusterSig Nat := effect (.submit o)

def awaitWrite (id : Nat) : Prog ClusterSig (Except ApiErr Unit) := effect (.awaitWrite id)

def deleteObject (o : Object) : Prog ClusterSig (Except ApiErr Unit) := effect (.deleteObject o)

def post (l : BerthLease) (key : Key) (endpoint : Endpoint) : Prog ClusterSig Nat :=
  effect (.post l key endpoint)

def await (id : Nat) (budget : Duration) : Prog ClusterSig (Except Err Response) :=
  effect (.await id budget)

def fetch (id : Nat) : Prog ClusterSig (Option Review) := effect (.fetch id)

def commit (id : Nat) (review : Review) (verdict : Verdict) : Prog ClusterSig Unit :=
  effect (.commit id review verdict)

def finish : Prog ClusterSig Unit := effect .finish

/-- `Update` or `Patch` of a workload object that was read before. -/
def updateObject (o : Object) : Prog ClusterSig (Except ApiErr Unit) := do
  let id ← submit o
  awaitWrite id

/-! ## The central server -/

namespace LeaseClient

/-- `LeaseClient.Acquire`. -/
def acquire (l : BerthLease) (key : Key) (holder : String) (ttl budget : Duration) :
    Prog ClusterSig (Except Err AcquireResult) := do
  let id ← post l key (acquireEndpoint holder ttl)
  match ← await id budget with
  | .error e => return .error e
  | .ok resp => return decode resp

/-- `LeaseClient.Release`. -/
def release (l : BerthLease) (key : Key) (holder : String) (token : Int) (budget : Duration) :
    Prog ClusterSig (Except Err Unit) := do
  let id ← post l key (releaseEndpoint holder token)
  match ← await id budget with
  | .error e => return .error e
  | .ok resp => return decodeRelease resp

end LeaseClient

end Berth.Operator
