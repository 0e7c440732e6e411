/-
Berth.Operator.Cluster — clusters with an operator each, and the central
lease server.

The machine of the operators. Its shared state is the central server with
everything in flight (a pool of its own) and, for every cluster, what the
API server has stored. Threads are reconcile passes of the three
reconcilers and the API server's handling of workload writes, which calls
the webhook.

What the API server guarantees is built in: a write carries the resource
version it was computed from and is applied only to exactly that version;
a LIST is one instant; a DELETE names a UID; UIDs are never used twice;
workload writes are defaulted, validated and go through the webhook; a
terminal Pod stays terminal.
Everything else is up to the scheduler and the environment: a request may
fail, be applied although its caller saw an error, or be applied long
after its caller gave up; users create, edit and delete BerthLeases as far
as the CRD lets them; anyone may submit workload writes; Pods change phase
and objects disappear.

With `serial` the work queue and the leader election do their job: there
is at most one pass over a BerthLease at a time, and a pass that was cut
off by a restart does nothing more.

`versions`, `fenced`, `ungatings` and `journal` are ghosts: every state a
BerthLease ever had with the length of the central log at that time, the
leases whose release was called since they were last active, the gate
removals that took effect, and what every thread asked and was answered.
-/
import Berth.Interleave.Pool
import Berth.Operator.Reconciler
import Mathlib.Logic.Function.Basic

namespace Berth.Operator

open Berth.Interleave Berth.Lease Berth.Api Berth.Client

/-! ## The API server's state -/

/-- A stored workload object and the UID of the lease under which it was
created, empty for none. -/
structure Stored where
  object : Object
  admitted : String
  deriving DecidableEq

/-- A workload write that the API server has received. -/
structure Pending where
  write : ObjectWrite
  user : String
  dryRun : Bool
  answer : Option (Except ApiErr Unit) := none

/-- A write of a BerthLease: of its status subresource or of the rest. -/
inductive LeaseWrite where
  | status (l : BerthLease)
  | whole (l : BerthLease)
  deriving DecidableEq

/-- The lease that a write asks for in place of `cur`. -/
def LeaseWrite.over (cur : BerthLease) : LeaseWrite → BerthLease
  | .status w => cur.withStatus w.status
  | .whole w =>
    { cur with
      finalizers := w.finalizers
      spec := w.spec
      generation := if w.spec = cur.spec then cur.generation else cur.generation + 1 }

/-- The lease as its writer has it. -/
def LeaseWrite.lease : LeaseWrite → BerthLease
  | .status w => w
  | .whole w => w

/-- A state of a BerthLease and the number of central writes when it was
stored. -/
structure Version where
  lease : BerthLease
  born : Nat
  deriving DecidableEq

/-- A gate removal that took effect, with what its check read. -/
structure Ungating where
  pod : PermittedPod
  binding : String
  permit : Option (BerthLease × Time)
  deriving DecidableEq

structure Cluster where
  revision : Nat := 0
  leases : List BerthLease := []
  objects : List Stored := []
  uids : List String := []
  reserved : List String := []
  requests : List Pending := []
  late : List LeaseWrite := []
  running : Key → Option Nat := fun _ => none
  versions : List Version := []
  fenced : List String := []
  ungatings : List Ungating := []
  journal : List (Nat × Event ClusterSig) := []

namespace Cluster

def lease? (c : Cluster) (k : Key) : Option BerthLease :=
  c.leases.find? fun l => decide (l.key = k)

def object? (c : Cluster) (k : ObjectKey) : Option Stored :=
  c.objects.find? fun o => decide (o.object.key = k)

/-- A new state of a lease, under the next revision. -/
def putLease (c : Cluster) (log : Nat) (l : BerthLease) : Cluster :=
  let l := { l with resourceVersion := c.revision + 1 }
  { c with
    revision := c.revision + 1
    leases := l :: c.leases.filter fun m => decide (m.key ≠ l.key)
    versions := ⟨l, log⟩ :: c.versions
    fenced := if l.phase = .active then c.fenced.filter (· ≠ l.uid) else c.fenced }

def dropLease (c : Cluster) (k : Key) : Cluster :=
  { c with leases := c.leases.filter fun m => decide (m.key ≠ k) }

/-- A new state of a workload object, under the next revision. -/
def putObject (c : Cluster) (o : Stored) : Cluster :=
  { c with
    revision := c.revision + 1
    objects := { o with object := { o.object with resourceVersion := c.revision + 1 } } ::
      c.objects.filter fun p => decide (p.object.key ≠ o.object.key)
    uids := o.object.uid :: c.uids }

def dropObject (c : Cluster) (k : ObjectKey) : Cluster :=
  { c with objects := c.objects.filter fun p => decide (p.object.key ≠ k) }

/-- Answer request `id`. -/
def reply (c : Cluster) (id : Nat) (a : Except ApiErr Unit) : Cluster :=
  { c with requests := c.requests.modify id fun p => { p with answer := some a } }

/-- The release of `l` is called. -/
def fence (c : Cluster) (l : BerthLease) : Cluster :=
  if l.spec.target.isSome then { c with fenced := l.uid :: c.fenced } else c

/-- Thread `i` got an answer. -/
def note (c : Cluster) (i : Nat) (e : Event ClusterSig) : Cluster :=
  { c with journal := (i, e) :: c.journal }

/-- What thread `i` asked and was answered, newest first. -/
def events (c : Cluster) (i : Nat) : List (Event ClusterSig) :=
  (c.journal.filter fun x => x.1 == i).map Prod.snd

/-! ## Lease writes -/

/-- Store `l` in place of `cur`. A write that changes nothing is answered
with what is there; one that takes the last finalizer off a lease that is
being deleted removes it. -/
def replaceLease (c : Cluster) (log : Nat) (cur l : BerthLease) : BerthLease × Cluster :=
  if l = cur then (cur, c)
  else if l.deletionTimestamp.isSome ∧ l.finalizers = [] then (l, c.dropLease l.key)
  else ({ l with resourceVersion := c.revision + 1 }, c.putLease log l)

/-- A lease write arrives: a compare-and-swap on the resource version. -/
def applyWrite (c : Cluster) (log : Nat) (w : LeaseWrite) : Except ApiErr BerthLease × Cluster :=
  match c.lease? w.lease.key with
  | none => (.error .notFound, c)
  | some cur =>
    if cur.resourceVersion ≠ w.lease.resourceVersion then (.error .conflict, c)
    else
      let (l, c') := c.replaceLease log cur (w.over cur)
      (.ok l, c')

end Cluster

/-! ## Workload writes -/

/-- What an UPDATE with `o` asks for in place of `old`: everything that is
not the API server's own. -/
def Object.onto (o old : Object) : Object :=
  { o with
    apiVersion := old.apiVersion, kind := old.kind, ns := old.ns, name := old.name
    uid := old.uid, resourceVersion := old.resourceVersion
    deletionTimestamp := old.deletionTimestamp, phase := old.phase }

/-- A CREATE as admission sees it. -/
def Object.fresh (o : Object) : Object :=
  { o with resourceVersion := 0, deletionTimestamp := none, phase := .pending }

/-- The object with the API server's defaults for the fields of supported
controllers. -/
def Object.defaulted (o : Object) : Object :=
  if supportedController o.apiVersion o.kind then
    if suspends o then { o with suspend := some (o.suspend.getD false) }
    else { o with replicas := some (o.replicas.getD 1) }
  else o

/-- The API server's validation, as far as it matters here. -/
def Object.valid (o : Object) : Bool := o.replicas.all fun n => decide (0 ≤ n)

namespace Cluster

/-- The UPDATE names the stored object: its version and UID if it has
them. -/
def names (o cur : Object) : Bool :=
  (o.resourceVersion == 0 || o.resourceVersion == cur.resourceVersion) &&
    (o.uid == "" || o.uid == cur.uid)

/-- The API server takes up request `id`. -/
def fetch (c : Cluster) (id : Nat) (p : Pending) : Option Review × Cluster :=
  if p.answer.isSome then (none, c)
  else match p.write with
  | .create o =>
    if o.valid then (some (.object ⟨o.fresh.defaulted, none, p.user, p.dryRun⟩), c)
    else (none, c.reply id (.error (.other (.new "invalid object"))))
  | .update o =>
    match c.object? o.key with
    | none => (none, c.reply id (.error .notFound))
    | some cur =>
      if !names o cur.object then (none, c.reply id (.error .conflict))
      else if o.valid then
        (some (.object ⟨(o.onto cur.object).defaulted, some cur.object, p.user, p.dryRun⟩), c)
      else (none, c.reply id (.error (.other (.new "invalid object"))))
  | .bind key uid node => (some (.binding key uid node), c)

/-- The gate removal that replacing `cur` by `new` is, if it is one. -/
def ungating (cur : Stored) (new : Object) (permit : Option (BerthLease × Time)) :
    List Ungating :=
  if cur.object.isPod && cur.admitted != "" && cur.object.pod.gateOn && !new.pod.gateOn then
    [⟨⟨new.name, new.uid⟩, cur.admitted, permit⟩]
  else []

/-- Store an admitted object. A new object needs a free name and a UID that
was never used; an update needs the object that admission saw. -/
def commitObject (c : Cluster) (id : Nat) (req : AdmissionRequest) (binding : String)
    (permit : Option (BerthLease × Time)) : Option Cluster :=
  match req.old with
  | none =>
    if (c.object? req.object.key).isSome then
      some (c.reply id (.error (.other (.new "already exists"))))
    else if req.object.uid = "" ∨ req.object.uid ∈ c.uids then none
    else some ((c.putObject ⟨req.object, binding⟩).reply id (.ok ()))
  | some old =>
    match c.object? old.key with
    | none => some (c.reply id (.error .notFound))
    | some cur =>
      if cur.object ≠ old then some (c.reply id (.error .conflict))
      else
        let c' := c.putObject ⟨req.object, cur.admitted⟩
        some (({ c' with ungatings := ungating cur req.object permit ++ c'.ungatings }).reply id
          (.ok ()))

/-- Bind a Pod to a node. -/
def commitBinding (c : Cluster) (id : Nat) (key : Key) (uid node : String) : Cluster :=
  match c.object? ⟨"v1", "Pod", key.ns, key.name⟩ with
  | none => c.reply id (.error .notFound)
  | some cur =>
    if (uid = "" ∨ uid = cur.object.uid) ∧ cur.object.pod.nodeName = "" ∧
        cur.object.pod.schedulingGates = [] then
      (c.putObject { cur with object :=
        { cur.object with pod := { cur.object.pod with nodeName := node } } }).reply id (.ok ())
    else c.reply id (.error .conflict)

/-- The API server acts on the webhook's answer, once. -/
def commit (c : Cluster) (id : Nat) (p : Pending) (review : Review) (verdict : Verdict) :
    Option Cluster :=
  if p.answer.isSome then none
  else
    match verdict with
    | .denied e => some (c.reply id (.error (.other e)))
    | .allowed binding permit =>
      match review with
      | .object req =>
        if req.dryRun then some (c.reply id (.ok ())) else c.commitObject id req binding permit
      | .binding key uid node => some (c.commitBinding id key uid node)

/-- The stop fence of the object, if it has one, names a revision that was
issued. -/
def issued (c : Cluster) : Review → Bool
  | .object req => (parseDigits (req.object.annotation stopFence).toList).all fun n =>
      decide (n ≤ c.revision)
  | .binding _ _ _ => true

/-- The object is in the listing that is asked for. -/
def selects (apiVersion kind ns : String) (label : Option String) (o : Object) : Bool :=
  o.apiVersion == apiVersion && o.kind == kind && o.ns == ns &&
    label.all fun v => o.label managedUID == v

end Cluster

/-! ## Operators -/

/-- The operators. `serial` says that passes over one lease do not overlap,
`honest` that no object is stored whose stop fence names a revision that
was not issued yet; `mayCreate` and `mayCall` say which BerthLeases users
create and which other calls the central server gets. -/
structure Fleet (ι : Type) where
  config : ι → Config
  identity : ι → Option Tenant.Identity
  serial : Bool
  honest : Bool
  mayCreate : ι → BerthLease → Bool
  mayCall : Server.Call → Bool

/-- What a thread does. -/
inductive Work where
  | reconcile (key : Key)
  | reconcilePod (key : Key)
  | reconcileJob (key : Key)
  | write (id : Nat)
  deriving DecidableEq, Repr

/-- A thread's work and the cluster it does it in. -/
structure Task (ι : Type) where
  cluster : ι
  what : Work

/-- The lease a pass is about. -/
def Work.lease? : Work → Option Key
  | .reconcile key => some key
  | _ => none

/-- What a thread returns. -/
inductive Done where
  | result (r : Result)
  | answered

def Work.prog (cfg : Config) : Work → Prog ClusterSig Done
  | .reconcile key => do
    let r ← Reconciler.reconcile cfg key
    finish
    return .result r
  | .reconcilePod key => do return .result (← Reconciler.reconcilePod key)
  | .reconcileJob key => do return .result (← Reconciler.reconcileJob key)
  | .write id => do
    handleWrite cfg.operatorUser id
    return .answered

/-- The central server and the clusters. -/
structure Site (ι : Type) (cfg : Server.Config) where
  central : Pool (Server.machine cfg)
  clusters : ι → Cluster

variable {ι : Type} [DecidableEq ι] {cfg : Server.Config}

namespace Site

def clock (s : Site ι cfg) : Time := s.central.shared.clock

/-- The number of writes the central server has made. -/
def log (s : Site ι cfg) : Nat := s.central.shared.writes.length

/-- Replace what cluster `j` has stored. -/
def set (s : Site ι cfg) (j : ι) (c : Cluster) : Site ι cfg :=
  { s with clusters := Function.update s.clusters j c }

/-- Thread `i` got an answer in cluster `j`. -/
def note (s : Site ι cfg) (j : ι) (i : Nat) (e : Event ClusterSig) : Site ι cfg :=
  s.set j ((s.clusters j).note i e)

end Site

/-- The scheduler's decisions. -/
inductive Choice where
  | ok
  /-- the request fails without effect -/
  | fail (e : Err)
  /-- the request takes effect, but its caller sees a failure -/
  | lost (e : Err)
  /-- the caller gives up, and the request is still under way -/
  | late (e : Err)
  /-- a DELETE only starts the deletion -/
  | graceful
  /-- a listing comes in this order -/
  | leases (ls : List BerthLease)
  | objects (os : List Object)

/-! ## Effects -/

/-- A lease write of a thread. -/
def execWrite (ch : Choice) (log : Nat) (w : LeaseWrite) (c : Cluster) :
    Option (Except ApiErr BerthLease × Cluster) :=
  match ch with
  | .ok => some (c.applyWrite log w)
  | .fail e => some (.error (.other e), c)
  | .lost e => some (.error (.other e), (c.applyWrite log w).2)
  | .late e => some (.error (.other e), { c with late := w :: c.late })
  | _ => none

/-- A DELETE with a UID precondition. -/
def execDelete (ch : Choice) (clock : Time) (o : Object) (c : Cluster) :
    Option (Except ApiErr Unit × Cluster) :=
  match ch with
  | .fail e => some (.error (.other e), c)
  | _ =>
    match c.object? o.key with
    | none => some (.error .notFound, c)
    | some cur =>
      if cur.object.uid ≠ o.uid then some (.error .conflict, c)
      else
        match ch with
        | .ok => some (.ok (), c.dropObject o.key)
        | .graceful =>
          some (.ok (), c.putObject
            { cur with object := { cur.object with deletionTimestamp := some clock } })
        | .lost e => some (.error (.other e), c.dropObject o.key)
        | _ => none

/-- The request is a Release. -/
def isRelease : Endpoint → Bool
  | .release _ => true
  | _ => false

/-- One effect of a thread in a cluster, apart from requests to the central
server. -/
def execLocal (honest : Bool) (cfg : Config) (ch : Choice) (clock : Time) (log : Nat) :
    (o : ClusterOp) → Work → Cluster → Option (o.Res × Cluster)
  | .now, _, c => some (clock, c)
  | .getLease key, _, c =>
    match ch with
    | .ok =>
      match c.lease? key with
      | some l => some (.ok l, c)
      | none => some (.error .notFound, c)
    | .fail e => some (.error (.other e), c)
    | _ => none
  | .listLeases ns, _, c =>
    match ch with
    | .leases ls =>
      if ls.isPerm (c.leases.filter fun l => l.ns == ns) then some (.ok ls, c) else none
    | .fail e => some (.error (.other e), c)
    | _ => none
  | .updateStatus l, _, c => execWrite ch log (.status l) c
  | .updateLease l, _, c =>
    execWrite ch log (.whole l) (if finalizerName ∈ l.finalizers then c else c.fence l)
  | .getObject key, _, c =>
    match ch with
    | .ok =>
      match c.object? key with
      | some o => some (.ok o.object, c)
      | none => some (.error .notFound, c)
    | .fail e => some (.error (.other e), c)
    | _ => none
  | .listObjects apiVersion kind ns label, _, c =>
    match ch with
    | .objects os =>
      if os.isPerm ((c.objects.map Stored.object).filter (Cluster.selects apiVersion kind ns label))
      then some (.ok os, c) else none
    | .fail e => some (.error (.other e), c)
    | _ => none
  | .submit o, _, c =>
    some (c.requests.length,
      { c with requests := c.requests ++ [⟨.update o, cfg.operatorUser, false, none⟩] })
  | .awaitWrite id, _, c =>
    match ch with
    | .ok => (c.requests[id]?.bind Pending.answer).map fun a => (a, c)
    | .fail e => some (.error (.other e), c)
    | _ => none
  | .deleteObject o, _, c => execDelete ch clock o c
  | .post _ _ _, _, _ => none
  | .await _ _, _, _ => none
  | .fetch id, _, c => c.requests[id]?.map fun p => c.fetch id p
  | .commit id review verdict, _, c =>
    if honest && !c.issued review then none
    else c.requests[id]?.bind fun p => (c.commit id p review verdict).map fun c' => ((), c')
  | .finish, w, c =>
    match w.lease? with
    | some key => some ((), { c with running := Function.update c.running key none })
    | none => none

/-- Thread `i` may still act. -/
def alive (F : Fleet ι) (i : Nat) (t : Task ι) (s : Site ι cfg) : Bool :=
  !F.serial || t.what.lease?.all fun key => (s.clusters t.cluster).running key == some i

/-- One effect of a thread that may act. -/
def execLive (F : Fleet ι) (ch : Choice) :
    (o : ClusterOp) → Task ι → Site ι cfg → Option (o.Res × Site ι cfg)
  | .post l key endpoint, t, s =>
    let sent := Client.submit s.central ⟨F.identity t.cluster, key, endpoint⟩
    let c := s.clusters t.cluster
    let s' := s.set t.cluster (if isRelease endpoint then c.fence l else c)
    some (sent.1, { s' with central := sent.2 })
  | .await id _, _, s =>
    match ch with
    | .ok => (reply? s.central id).map fun resp => (.ok resp, s)
    | .fail e => if e.is .clientConflict then none else some (.error e, s)
    | _ => none
  | o, t, s =>
    (execLocal F.honest (F.config t.cluster) ch s.clock s.log o t.what (s.clusters t.cluster)).map
      fun x => (x.1, s.set t.cluster x.2)

/-- One effect of thread `i`. -/
def exec (F : Fleet ι) (i : Nat) (ch : Choice) (o : ClusterOp) (t : Task ι) (s : Site ι cfg) :
    Option (o.Res × Task ι × Site ι cfg) :=
  if alive F i t s then
    (execLive F ch o t s).map fun x => (x.1, t, x.2.note t.cluster i ⟨o, x.1⟩)
  else none

/-- A thread begins; a pass takes its lease from the work queue. -/
def enter (F : Fleet ι) (n : Nat) (t : Task ι) (s : Site ι cfg) : Option (Task ι × Site ι cfg) :=
  match t.what.lease? with
  | none => some (t, s)
  | some key =>
    let c := s.clusters t.cluster
    if F.serial && (c.running key).isSome then none
    else some (t, s.set t.cluster { c with running := Function.update c.running key (some n) })

/-! ## The environment -/

/-- What happens in a cluster without a thread. -/
inductive LocalEnv where
  /-- a lease write arrives whose caller has given up -/
  | land (w : LeaseWrite)
  | createLease (l : BerthLease)
  | editLease (key : Key) (spec : BerthLeaseSpec)
  /-- others put their finalizers on a lease or take them off -/
  | setFinalizers (key : Key) (finalizers : List String)
  | deleteLease (key : Key)
  /-- someone submits a workload write -/
  | request (w : ObjectWrite) (user : String) (dryRun : Bool)
  | podPhase (key : ObjectKey) (phase : PodPhase)
  | markDeleted (key : ObjectKey)
  | removeObject (key : ObjectKey)
  /-- the operator process starts anew -/
  | restart

/-- Change the lease under `key`, as far as the API server lets anyone. -/
def Cluster.changeLease (c : Cluster) (log : Nat) (key : Key)
    (f : BerthLease → Option BerthLease) : Option Cluster :=
  (c.lease? key).bind fun cur => (f cur).map fun l => (c.replaceLease log cur l).2

/-- A workload write arrives; a CREATE gets a UID of its own. -/
def Cluster.receive (c : Cluster) (w : ObjectWrite) (user : String) (dryRun : Bool) :
    Option Cluster :=
  let c' := { c with requests := c.requests ++ [⟨w, user, dryRun, none⟩] }
  match w with
  | .create o =>
    if o.uid = "" ∨ o.uid ∈ c.uids ∨ o.uid ∈ c.reserved then none
    else some { c' with reserved := o.uid :: c.reserved }
  | _ => some c'

/-- Change the object under `key`. -/
def Cluster.changeObject (c : Cluster) (key : ObjectKey) (f : Object → Option Object) :
    Option Cluster :=
  (c.object? key).bind fun cur => (f cur.object).map fun o => c.putObject { cur with object := o }

def localStep (mayCreate : BerthLease → Bool) (clock : Time) (log : Nat) (c : Cluster) :
    LocalEnv → Option Cluster
  | .land w => if w ∈ c.late then some (c.applyWrite log w).2 else none
  | .createLease l =>
    if mayCreate l && (c.lease? l.key).isNone && l.uid != "" && !c.uids.contains l.uid then
      some (({ c with uids := l.uid :: c.uids }).putLease log
        { l with generation := 1, deletionTimestamp := none, status := {} })
    else none
  | .editLease key spec => c.changeLease log key fun cur =>
    if cur.spec.editableTo spec then
      some { cur with spec := spec, generation := cur.generation + 1 }
    else none
  | .setFinalizers key finalizers => c.changeLease log key fun cur =>
    if finalizerName ∈ cur.finalizers ∧ finalizerName ∉ finalizers then none
    else some { cur with finalizers := finalizers }
  | .deleteLease key => c.changeLease log key fun cur =>
    some { cur with deletionTimestamp := some (cur.deletionTimestamp.getD clock) }
  | .request w user dryRun => c.receive w user dryRun
  | .podPhase key phase => c.changeObject key fun o =>
    if o.terminal then none else some { o with phase := phase }
  | .markDeleted key => c.changeObject key fun o =>
    some { o with deletionTimestamp := some (o.deletionTimestamp.getD clock) }
  | .removeObject key => some (c.dropObject key)
  | .restart => some { c with running := fun _ => none }

/-- Steps that belong to no thread. -/
inductive Env (ι : Type) where
  /-- someone else calls the central server -/
  | call (c : Server.Call)
  /-- the central server works on request `i` -/
  | serve (i : Nat) (ch : Server.Choice)
  | tick (t : Time)
  | cluster (j : ι) (e : LocalEnv)

/-- A step of the central server. -/
def Site.serve (s : Site ι cfg) (a : Action (Server.machine cfg)) : Option (Site ι cfg) :=
  (s.central.step a).map fun p => { s with central := p }

def envStep (F : Fleet ι) (e : Env ι) (s : Site ι cfg) : Option (Site ι cfg) :=
  match e with
  | .call c => if F.mayCall c then s.serve (.spawn c) else none
  | .serve i ch => s.serve (.exec i ch)
  | .tick t => s.serve (.env t)
  | .cluster j e =>
    (localStep (F.mayCreate j) s.clock s.log (s.clusters j) e).map fun c => s.set j c

/-- The operators: threads are reconcile passes and workload writes. -/
def machine (F : Fleet ι) (cfg : Server.Config) : Machine ClusterSig where
  Call := Task ι
  Out := Done
  Loc := Task ι
  State := Site ι cfg
  Choice := Choice
  Env := Env ι
  prog := fun t => t.what.prog (F.config t.cluster)
  start := enter F
  exec := exec F
  env := envStep F

/-- Empty clusters and a new server at time `t`. -/
def Site.new (cfg : Server.Config) (t : Time) : Site ι cfg :=
  { central := Server.fresh cfg t, clusters := fun _ => {} }

abbrev fresh (F : Fleet ι) (cfg : Server.Config) (t : Time) : Pool (machine F cfg) :=
  Pool.empty (Site.new cfg t)

end Berth.Operator
