/-
Berth.Operator.Admission — the validating webhook for workloads
(`internal/operator/admission.go`).

`handle` is `WorkloadAdmission.Handle` of the validating registration, on
a request whose objects decoded. Every object is read at its own instant,
so between the checks of one request the cluster may change.
-/
import Berth.Operator.Effects

namespace Berth.Operator

open Berth.Interleave Berth.Lease

/-! ## Bindings -/

/-- `binding`. -/
structure Binding where
  name : String := ""
  uid : String := ""
  targetUID : String := ""
  deriving DecidableEq, Repr

/-- `supportedController`. -/
def supportedController (apiVersion kind : String) : Bool :=
  apiVersion == "apps/v1" &&
      (kind == "Deployment" || kind == "ReplicaSet" || kind == "StatefulSet") ||
    apiVersion == "batch/v1" && (kind == "Job" || kind == "CronJob")

/-- The first controller owner, if it is of a supported kind. -/
def controllerOwner (o : Object) : Option OwnerReference :=
  match o.ownerReferences.find? (·.controller == some true) with
  | none => none
  | some owner => if supportedController owner.apiVersion owner.kind then some owner else none

/-- The lease names the object as its target. -/
def targets (l : BerthLease) (o : Object) : Bool :=
  match l.spec.target with
  | none => false
  | some t => t.name == o.name && t.apiVersion == o.apiVersion && t.kind == o.kind

/-- The loop over the leases in `resolveBinding`. -/
def findBinding (o : Object) : List BerthLease → Binding → Except Err Binding
  | [], found => .ok found
  | l :: ls, found =>
    if targets l o then
      if found.uid ≠ "" then .error (.new "multiple BerthLeases refer to the same target")
      else findBinding o ls ⟨l.name, l.uid, o.uid⟩
    else findBinding o ls found

/-- The end of `resolveBinding`, for an object that is no target. -/
def noBinding (o : Object) : Except Err Binding :=
  if o.annotation managedUID ≠ "" ∨ o.annotation managedLease ≠ "" then
    .error (.new "managed binding has no matching live target lease")
  else .ok {}

/-- `resolveBinding` on an object without a supported controller owner. -/
def rootBinding (o : Object) : Prog ClusterSig (Except Err Binding) := do
  if supportedController o.apiVersion o.kind && o.kind != "Job" then
    match ← listLeases o.ns with
    | .error e => return .error e.err
    | .ok leases =>
      match findBinding o leases {} with
      | .error e => return .error e
      | .ok found => if found.uid ≠ "" then return .ok found else return noBinding o
  else return noBinding o

/-- `resolveBinding`; the number counts the levels that are left. -/
def resolveBinding : Nat → Object → Prog ClusterSig (Except Err Binding)
  | 0, _ => return .error (.new "workload owner chain exceeds supported depth")
  | n + 1, o =>
    match controllerOwner o with
    | none => rootBinding o
    | some owner => do
      match ← getObject ⟨owner.apiVersion, owner.kind, o.ns, owner.name⟩ with
      | .error e => return .error (.wrap "resolve controller owner" e.err)
      | .ok parent =>
        if parent.uid ≠ owner.uid then return .error (.new "controller owner UID changed")
        else resolveBinding n parent

/-- `expectedBinding`. -/
def expectedBinding (o : Object) : Prog ClusterSig (Except Err Binding) := resolveBinding 5 o

/-! ## Object checks -/

/-- `validateMetadata`. -/
def validateMetadata (m : Meta) (b : Binding) : Option Err :=
  if m.annotation managedLease ≠ b.name ∨ m.annotation managedUID ≠ b.uid ∨
      m.label managedUID ≠ b.uid then
    some (.new "managed workload binding cannot be removed or changed")
  else none

/-- The part of `validateManagedObject` that depends on whether the object
is a Pod that already exists. -/
def validateGate (obj : Object) (old : Option Object) (spec : PodSpec) (operator : Bool) :
    Option Err :=
  match obj.kind == "Pod", old with
  | true, some old =>
    if old.ownerReferences ≠ obj.ownerReferences then
      some (.new "managed Pod owner identity is immutable")
    else if old.pod.nodeName ≠ spec.nodeName then
      some (.new "managed Pods must use the binding subresource")
    else if old.pod.gateOn && !obj.pod.gateOn && !operator then
      some (.new "only the operator may remove the Berth scheduling gate")
    else none
  | _, _ =>
    if !spec.gateOn then
      some (.new "managed Pod must be created with the Berth scheduling gate")
    else none

/-- `validateManagedObject` with the template that `podTemplatePath` names. -/
def validateTemplate (obj : Object) (old : Option Object) (spec : PodSpec) (b : Binding)
    (operator : Bool) : Option Err :=
  if spec.nodeName ≠ "" ∧ (obj.kind ≠ "Pod" ∨ old.isNone) then
    some (.new "managed Pods cannot be prebound using nodeName")
  else
    match validateGate obj old spec operator with
    | some e => some e
    | none => if obj.kind = "CronJob" then validateMetadata obj.jobTemplate b else none

/-- `validateManagedObject`. -/
def validateManagedObject (obj : Object) (old : Option Object) (b : Binding) (operator : Bool) :
    Option Err :=
  match validateMetadata obj.metadata b with
  | some e => some e
  | none =>
    if obj.kind = "Pod" then validateTemplate obj old obj.pod b operator
    else
      match obj.template with
      | none => some (.new "missing managed Pod template")
      | some t =>
        match validateMetadata t.metadata b with
        | some e => some e
        | none => validateTemplate obj old t.spec b operator

/-- The kind is paused by `spec.suspend` rather than by its replicas. -/
def suspends (o : Object) : Bool := o.kind == "CronJob" || o.kind == "Job"

/-- `increasesActivity`. -/
def increasesActivity (obj old : Object) : Bool :=
  if suspends obj then old.suspend.getD false && !obj.suspend.getD false
  else decide (old.replicas.getD 0 < obj.replicas.getD 0)

/-- `inactiveTarget`. -/
def inactiveTarget (o : Object) : Bool :=
  if suspends o then o.suspend == some true else o.replicas == some 0

/-! ## Checks against the lease -/

/-- The list names this Pod. -/
def registered (ps : List PermittedPod) (name uid : String) : Bool :=
  ps.any fun p => p.uid == uid && p.name == name

/-- `validatePermit`; on success, what it read and when. -/
def validatePermit (obj : Object) (b : Binding) :
    Prog ClusterSig (Except Err (BerthLease × Time)) := do
  match ← getLease ⟨obj.ns, b.name⟩ with
  | .error e => return .error e.err
  | .ok l =>
    if l.uid ≠ b.uid then return .error (.new "lease no longer permits Pod starts")
    else do
      let t ← now
      if !activeAt l t then return .error (.new "lease no longer permits Pod starts")
      else if !registered l.pods obj.name obj.uid then
        return .error (.new "pod UID was not durably registered")
      else return .ok (l, t)

/-- The check of an update that increases a controller's activity. -/
def validateActivation (obj : Object) (b : Binding) : Prog ClusterSig (Option Err) := do
  match ← getLease ⟨obj.ns, b.name⟩ with
  | .error e => return some e.err
  | .ok l =>
    if l.uid ≠ b.uid then
      return some (.new "lease does not authorize workload activation")
    else do
      let t ← now
      if !activeAt l t then return some (.new "lease does not authorize workload activation")
      else return none

/-- The workload record may be replaced: no activation and no Pods. -/
def replaceable (l : BerthLease) : Bool :=
  match l.status.workload with
  | none => true
  | some w => w.phase == .idle && w.pods.isEmpty

/-- `recordTarget`. -/
def recordTarget (obj : Object) (b : Binding) (dry : Bool) : Prog ClusterSig (Option Err) := do
  match ← getLease ⟨obj.ns, b.name⟩ with
  | .error e => return some e.err
  | .ok l =>
    if l.uid ≠ b.uid ∨ l.deletionTimestamp.isSome then
      return some (.new "target lease is deleted or replaced")
    else if !targets l obj then return none
    else
      match workloadSpec l.spec with
      | some e => return some e
      | none =>
        if obj.uid = "" then
          return some (.new "final target CREATE admission requires a Kubernetes UID")
        else if !replaceable l then
          return some (.new "target cannot be replaced while cleanup responsibility is active")
        else do
          match ← getObject obj.key with
          | .ok _ =>
            return some (.new "target already exists; CREATE cannot replace its admission record")
          | .error .notFound =>
            if dry then return none
            else return errOf (← updateStatus (l.withWorkload (some { targetUID := obj.uid })))
          | .error e => return some e.err

/-- `validateBinding`. -/
def validateBinding (key : Key) (uid : String) : Prog ClusterSig Verdict := do
  match ← getObject ⟨"v1", "Pod", key.ns, key.name⟩ with
  | .error e => return .denied e.err
  | .ok pod =>
    if pod.annotation managedUID = "" then return .allowed "" none
    else if uid = "" ∨ uid ≠ pod.uid then
      return .denied (.new "managed Pod binding must name the observed Pod UID")
    else if hasGate pod then return .denied (.new "managed Pod is still scheduling gated")
    else return .allowed "" none

/-! ## The handler -/

/-- The binding under which a request is judged: an admitted object keeps
its own, anything else gets the one of its owners. -/
def requestBinding (req : AdmissionRequest) : Prog ClusterSig (Except Err Binding) :=
  match req.old with
  | some old =>
    if old.annotation managedUID ≠ "" then
      return .ok ⟨old.annotation managedLease, old.annotation managedUID, old.uid⟩
    else expectedBinding req.object
  | none => expectedBinding req.object

/-- An update of an object that was never admitted and stays so. -/
def unmanagedUpdate (req : AdmissionRequest) : Bool :=
  match req.old with
  | none => false
  | some old =>
    old.annotation managedUID == "" && req.object.annotation managedUID == "" &&
      decide (old.ownerReferences = req.object.ownerReferences)

/-- `obj.Object["spec"]` of a Pod. -/
def sameSpec (obj old : Object) : Bool := decide (obj.pod = old.pod) && obj.rest == old.rest

/-- The answer for an object that a lease covers but admission never saw:
it may only be stopped. -/
def handleLegacy (obj old : Object) : Verdict :=
  if old.ownerReferences ≠ obj.ownerReferences then
    .denied (.new "managed controllers cannot adopt unadmitted objects")
  else if ((obj.kind ≠ "Pod" ∧ inactiveTarget obj = true) ∨
      (obj.kind = "Pod" ∧ sameSpec obj old = true)) ∧ obj.annotation managedUID = "" then
    .allowed "" none
  else .denied (.new "drain and recreate legacy managed targets under admission")

/-- The answer for a controller, once it passed `validateManagedObject`. -/
def handleController (req : AdmissionRequest) (b : Binding) : Prog ClusterSig Verdict := do
  match req.old with
  | some old =>
    if increasesActivity req.object old then
      match ← validateActivation req.object b with
      | some e => return .denied e
      | none => return .allowed b.uid none
    else return .allowed b.uid none
  | none =>
    match ← recordTarget req.object b req.dryRun with
    | some e => return .denied e
    | none => return .allowed b.uid none

/-- The answer for a Pod, once it passed `validateManagedObject`. -/
def handlePod (req : AdmissionRequest) (b : Binding) : Prog ClusterSig Verdict := do
  if req.old.any (·.pod.gateOn) && !req.object.pod.gateOn then
    match ← validatePermit req.object b with
    | .error e => return .denied e
    | .ok read => return .allowed b.uid (some read)
  else return .allowed b.uid none

/-- The answer for an object under a binding. -/
def handleManaged (operatorUser : String) (req : AdmissionRequest) (b : Binding) :
    Prog ClusterSig Verdict :=
  match validateManagedObject req.object req.old b (req.user == operatorUser) with
  | some e => return .denied e
  | none => if req.object.kind = "Pod" then handlePod req b else handleController req b

/-- `Handle` on a CREATE or UPDATE. -/
def handleObject (operatorUser : String) (req : AdmissionRequest) : Prog ClusterSig Verdict := do
  match ← requestBinding req with
  | .error e => if unmanagedUpdate req then return .allowed "" none else return .denied e
  | .ok b =>
    if b.uid = "" then return .allowed "" none
    else
      match req.old with
      | none => handleManaged operatorUser req b
      | some old =>
        if old.annotation managedUID = "" then return handleLegacy req.object old
        else handleManaged operatorUser req b

/-- `WorkloadAdmission.Handle`. -/
def handle (operatorUser : String) : Review → Prog ClusterSig Verdict
  | .object req => handleObject operatorUser req
  | .binding key uid _ => validateBinding key uid

/-- The API server's handling of write number `id`. -/
def handleWrite (operatorUser : String) (id : Nat) : Prog ClusterSig Unit := do
  match ← fetch id with
  | none => return ()
  | some review =>
    let verdict ← handle operatorUser review
    commit id review verdict

end Berth.Operator
