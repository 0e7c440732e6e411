/-
Berth.Operator.Types — the objects the operator works with.

`BerthLease` is the operator's own resource (`api/v1alpha1/types.go`) with
the pure functions over it from `internal/operator`. `Object` is any
workload object as the reconcilers and the admission webhook see it: a
Pod, one of the supported controllers or anything else a request may
name. One record serves all kinds; the fields of other kinds stay empty,
and what nobody reads of a spec is its `rest`.

Resource versions are numbers here; an annotation that holds one holds
its decimal text. Timestamps of a stored status are whole seconds
(`metav1.Time`).
-/
import Berth.Lease.K8sStore

namespace Berth.Operator

open Berth.Lease

/-! ## BerthLease -/

/-- `FinalizerName`. -/
def finalizerName : String := "berth.skaphos.io/lease-release"

def managedLease : String := "berth.skaphos.io/managed-lease"
def managedUID : String := "berth.skaphos.io/managed-lease-uid"
def schedulingGate : String := "berth.skaphos.io/lease-held"
def stopFence : String := "berth.skaphos.io/stop-fence"

def maxPermittedPods : Nat := 1024
def localTimeout : Duration := 5 * second

/-- `TargetRef`. -/
structure TargetRef where
  apiVersion : String
  kind : String
  name : String
  deriving DecidableEq, Repr

/-- `LeaseAction`; `scale` is the replica count of its `ScaleAction`. -/
structure LeaseAction where
  suspend : Option Bool := none
  scale : Option Int := none
  deriving DecidableEq, Repr

/-- `BerthLeaseSpec`. -/
structure BerthLeaseSpec where
  leaseName : String
  holderIdentity : String
  ttlSeconds : Int
  heartbeatIntervalSeconds : Int
  target : Option TargetRef := none
  acquireAction : Option LeaseAction := none
  releaseAction : Option LeaseAction := none
  deriving DecidableEq, Repr

/-- `WorkloadStatus.Phase`: empty, `Active` or `Stopping`. -/
inductive Phase where
  | idle
  | active
  | stopping
  deriving DecidableEq, Repr

/-- `PermittedPod`. -/
structure PermittedPod where
  name : String
  uid : String
  deriving DecidableEq, Repr

/-- `WorkloadStatus`. -/
structure WorkloadStatus where
  targetUID : String := ""
  phase : Phase := .idle
  deadline : Option Time := none
  leaseName : String := ""
  holder : String := ""
  token : Int := 0
  pods : List PermittedPod := []
  deriving DecidableEq, Repr

inductive LeaseState where
  | unset
  | held
  | waiting
  deriving DecidableEq, Repr

inductive ConditionType where
  | acquired
  | heartbeatHealthy
  deriving DecidableEq, Repr

/-- `metav1.Condition` without its transition time. -/
structure Condition where
  type : ConditionType
  status : Bool
  reason : String
  message : String
  observedGeneration : Nat
  deriving DecidableEq, Repr

/-- `BerthLeaseStatus`. -/
structure BerthLeaseStatus where
  workload : Option WorkloadStatus := none
  observedGeneration : Nat := 0
  leaseState : LeaseState := .unset
  currentHolder : String := ""
  acquiredAt : Option Time := none
  expiresAt : Option Time := none
  lastHeartbeat : Option Time := none
  fencingToken : Int := 0
  conditions : List Condition := []
  deriving DecidableEq, Repr

/-- `BerthLease`. -/
structure BerthLease where
  ns : String
  name : String
  uid : String
  resourceVersion : Nat := 0
  generation : Nat := 1
  deletionTimestamp : Option Time := none
  finalizers : List String := []
  spec : BerthLeaseSpec
  status : BerthLeaseStatus := {}
  deriving DecidableEq, Repr

namespace BerthLease

/-- The object's namespaced name. -/
def key (l : BerthLease) : Key := ⟨l.ns, l.name⟩

/-- The lease on the central server that the object asks for. -/
def central (l : BerthLease) : Key := ⟨l.ns, l.spec.leaseName⟩

/-- The persisted phase; no record counts as idle. -/
def phase (l : BerthLease) : Phase := (l.status.workload.map WorkloadStatus.phase).getD .idle

def token (l : BerthLease) : Int := (l.status.workload.map WorkloadStatus.token).getD 0

def holder (l : BerthLease) : String := (l.status.workload.map WorkloadStatus.holder).getD ""

/-- The registered Pods. -/
def pods (l : BerthLease) : List PermittedPod :=
  (l.status.workload.map WorkloadStatus.pods).getD []

/-- Replace the workload record. -/
def withWorkload (l : BerthLease) (w : Option WorkloadStatus) : BerthLease :=
  { l with status := { l.status with workload := w } }

end BerthLease

/-- What `metav1.Time` keeps of an instant, and `Truncate(time.Second)`. -/
def truncSecond (t : Time) : Time := t / second * second

/-- A status as it comes back from the API server. -/
def BerthLeaseStatus.stored (st : BerthLeaseStatus) : BerthLeaseStatus :=
  { st with
    workload := st.workload.map fun w => { w with deadline := w.deadline.map truncSecond }
    acquiredAt := st.acquiredAt.map truncSecond
    expiresAt := st.expiresAt.map truncSecond
    lastHeartbeat := st.lastHeartbeat.map truncSecond }

/-- The lease with a new status, as the API server stores it. -/
def BerthLease.withStatus (l : BerthLease) (st : BerthLeaseStatus) : BerthLease :=
  { l with status := st.stored }

/-- `timePtr`. -/
def timePtr (t : Time) : Option Time := if t = zeroTime then none else some t

/-- `minTime`. -/
def minTime (a b : Time) : Time := if a < b then a else b

/-- `reacquireInterval`. -/
def reacquireInterval (heartbeat ttl : Duration) : Duration :=
  if 0 < heartbeat ∧ heartbeat < ttl.tdiv 3 then heartbeat else ttl.tdiv 3

/-- `setCondition`: update the condition of that type or append it. -/
def setCondition (st : BerthLeaseStatus) (type : ConditionType) (status : Bool)
    (reason message : String) (generation : Nat) : BerthLeaseStatus :=
  let c : Condition := ⟨type, status, reason, message, generation⟩
  { st with
    conditions :=
      if st.conditions.any (·.type == type) then
        st.conditions.map fun d => if d.type = type then c else d
      else st.conditions ++ [c] }

/-- `setCondition` on a lease, with the lease's generation. -/
def BerthLease.condition (l : BerthLease) (type : ConditionType) (status : Bool)
    (reason message : String) : BerthLease :=
  { l with status := setCondition l.status type status reason message l.generation }

/-- `activeAt`. -/
def activeAt (l : BerthLease) (now : Time) : Bool :=
  l.deletionTimestamp.isNone &&
    match l.status.workload with
    | none => false
    | some w =>
      w.phase == .active && w.deadline.any (fun d => decide (now < d)) && decide (0 < w.token)

/-! ## Spec -/

/-- `workloadSpec`. -/
def workloadSpec (spec : BerthLeaseSpec) : Option Err :=
  match spec.target with
  | none =>
    if spec.acquireAction.isSome || spec.releaseAction.isSome then
      some (.new "actions require a target")
    else none
  | some t =>
    if t.name = "" then some (.new "target name is required")
    else
      match spec.acquireAction, spec.releaseAction with
      | some a, some b =>
        if t.apiVersion = "batch/v1" ∧ t.kind = "CronJob" then
          if a.suspend = some false ∧ a.scale = none ∧ b.suspend = some true ∧ b.scale = none then
            none
          else some (.new "CronJobs require acquire suspend=false and release suspend=true")
        else if t.apiVersion ≠ "apps/v1" ∨
            (t.kind ≠ "Deployment" ∧ t.kind ≠ "StatefulSet" ∧ t.kind ≠ "ReplicaSet") then
          some (.new
            "supported targets are apps/v1 Deployment, StatefulSet, ReplicaSet and batch/v1 CronJob")
        else if a.scale.any (fun n => decide (0 ≤ n)) ∧ a.suspend = none ∧ b.scale = some 0 ∧
            b.suspend = none then none
        else some (.new "scalable targets require scale actions and scale-to-zero release")
      | _, _ => some (.new "managed targets require acquireAction and releaseAction")

/-- `validateSpec`. -/
def validateSpec (spec : BerthLeaseSpec) : Option Err :=
  if spec.leaseName = "" then some (.new "spec.leaseName is required")
  else if spec.holderIdentity = "" then some (.new "spec.holderIdentity is required")
  else if spec.ttlSeconds ≤ 0 then some (.new "spec.ttlSeconds must be positive")
  else if spec.heartbeatIntervalSeconds ≤ 0 then
    some (.new "spec.heartbeatIntervalSeconds must be positive")
  else if spec.ttlSeconds ≤ spec.heartbeatIntervalSeconds then
    some (.new "spec.heartbeatIntervalSeconds must be less than spec.ttlSeconds")
  else workloadSpec spec

/-- What the CRD's immutability rules let an update of the spec change. -/
def BerthLeaseSpec.editableTo (old new : BerthLeaseSpec) : Bool :=
  new.leaseName == old.leaseName && new.holderIdentity == old.holderIdentity &&
    decide (new.target = old.target) && decide (new.releaseAction = old.releaseAction)

/-! ## Workload objects -/

/-- `metav1.OwnerReference`. -/
structure OwnerReference where
  apiVersion : String
  kind : String
  name : String
  uid : String
  controller : Option Bool := none
  blockOwnerDeletion : Option Bool := none
  deriving DecidableEq, Repr

/-- Equality of maps by their entries, in a form that evaluates. -/
instance : DecidableEq StringMap := fun a b =>
  decidable_of_iff (a.entries = b.entries) AList.ext_iff.symm

/-- The annotations and labels of an object or a template. -/
structure Meta where
  annotations : StringMap := ∅
  labels : StringMap := ∅
  deriving DecidableEq

/-- `m.GetAnnotations()[k]`. -/
def Meta.annotation (m : Meta) (k : String) : String := (m.annotations.lookup k).getD ""

/-- `m.GetLabels()[k]`. -/
def Meta.label (m : Meta) (k : String) : String := (m.labels.lookup k).getD ""

/-- The part of a Pod's spec, or of a template's, that admission reads. -/
structure PodSpec where
  schedulingGates : List String := []
  nodeName : String := ""
  deriving DecidableEq

/-- A Pod template. -/
structure PodTemplate where
  metadata : Meta := {}
  spec : PodSpec := {}
  deriving DecidableEq

/-- `corev1.PodPhase`. -/
inductive PodPhase where
  | pending
  | running
  | succeeded
  | failed
  | unknown
  deriving DecidableEq, Repr

/-- A workload object. `template` is the one at `podTemplatePath`, and
`jobTemplate` the metadata of a CronJob's job template. -/
structure Object where
  apiVersion : String
  kind : String
  ns : String
  name : String
  uid : String
  resourceVersion : Nat := 0
  metadata : Meta := {}
  ownerReferences : List OwnerReference := []
  deletionTimestamp : Option Time := none
  replicas : Option Int := none
  suspend : Option Bool := none
  pod : PodSpec := {}
  template : Option PodTemplate := none
  jobTemplate : Meta := {}
  rest : String := ""
  phase : PodPhase := .pending
  deriving DecidableEq

/-- Kind, namespace and name: what identifies a stored object. -/
structure ObjectKey where
  apiVersion : String
  kind : String
  ns : String
  name : String
  deriving DecidableEq, Repr

namespace Object

def key (o : Object) : ObjectKey := ⟨o.apiVersion, o.kind, o.ns, o.name⟩

def annotation (o : Object) (k : String) : String := o.metadata.annotation k

def label (o : Object) (k : String) : String := o.metadata.label k

/-- The object is a Pod. -/
def isPod (o : Object) : Bool := o.apiVersion == "v1" && o.kind == "Pod"

/-- `PodSucceeded` or `PodFailed`. -/
def terminal (o : Object) : Bool := o.phase == .succeeded || o.phase == .failed

end Object

/-- `hasGate` and `gateOn`: the gate is among the listed ones. -/
def PodSpec.gateOn (s : PodSpec) : Bool := s.schedulingGates.contains schedulingGate

/-- `hasGate` of a Pod. -/
def hasGate (p : Object) : Bool := p.pod.gateOn

end Berth.Operator
