/-
Berth.Operator.Workload — what the operator does to its targets and their
Pods (`internal/operator/workload.go`, `actions.go`).

Functions that write the lease return it as the API server stored it,
which is what the source's in-place updates leave behind.
-/
import Berth.Operator.Admission

namespace Berth.Operator

open Berth.Interleave Berth.Lease

/-- The configuration of a `BerthLeaseReconciler`, and the user name under
which it talks to the API server. -/
structure Config where
  clusterIdentity : String := ""
  managedWorkloads : Bool := true
  operatorNamespace : String := ""
  operatorUser : String
  deriving DecidableEq, Repr

/-- `holderFor`. -/
def Config.holderFor (cfg : Config) (l : BerthLease) : String :=
  if cfg.clusterIdentity ≠ "" then cfg.clusterIdentity else l.spec.holderIdentity

/-- Where the target of a lease is stored. -/
def targetKey (l : BerthLease) (t : TargetRef) : ObjectKey := ⟨t.apiVersion, t.kind, l.ns, t.name⟩

/-! ## Actions -/

/-- The object with the action's fields set. -/
def applyTo (o : Object) (action : LeaseAction) (fence : String) : Object :=
  let o := match action.suspend with
    | some v => { o with suspend := some v }
    | none => o
  let o := match action.scale with
    | some n => { o with replicas := some n }
    | none => o
  if fence ≠ "" ∧ o.annotation stopFence ≠ fence then
    { o with metadata :=
        { o.metadata with annotations := o.metadata.annotations.insert stopFence fence } }
  else o

/-- `applyFencedAction`. The patch carries the resource version that was
read, so it is an update of exactly that object. -/
def applyFencedAction (ns : String) (ref : Option TargetRef) (action : Option LeaseAction)
    (uid fence : String) : Prog ClusterSig (Option Err) :=
  match ref, action with
  | some t, some a => do
    match ← getObject ⟨t.apiVersion, t.kind, ns, t.name⟩ with
    | .error .notFound => return none
    | .error e => return some (.wrap ("get target " ++ ns ++ "/" ++ t.name) e.err)
    | .ok o =>
      if uid ≠ "" ∧ o.uid ≠ uid then return some (.new "target UID changed")
      else if a.suspend.isNone && a.scale.isNone then
        return some (.new "apply action: action specifies no mutation")
      else if applyTo o a fence = o then return none
      else do
        match ← updateObject (applyTo o a fence) with
        | .error e => return some (.wrap ("patch target " ++ ns ++ "/" ++ t.name) e.err)
        | .ok () => return none
  | _, _ => return none

/-- `applyActionForUID`. -/
def applyActionForUID (ns : String) (ref : Option TargetRef) (action : Option LeaseAction)
    (uid : String) : Prog ClusterSig (Option Err) := applyFencedAction ns ref action uid ""

/-! ## The target -/

/-- `verifyTarget`, for a lease with target `t`. -/
def verifyTarget (cfg : Config) (l : BerthLease) (t : TargetRef) :
    Prog ClusterSig (Option Err) :=
  if cfg.operatorNamespace ≠ "" ∧ l.ns = cfg.operatorNamespace then
    return some (.new "workloads cannot be managed in the operator namespace")
  else if !cfg.managedWorkloads then
    return some (.new
      "managed workloads require workload admission; lease-only operation is still available")
  else
    match l.status.workload with
    | none => return some (.new
        "target has no CREATE admission record; drain and recreate the target after its BerthLease")
    | some w =>
      if w.targetUID = "" then
        return some (.new
          "target has no CREATE admission record; drain and recreate the target after its BerthLease")
      else do
        match ← getObject (targetKey l t) with
        | .error e => return some e.err
        | .ok o =>
          if o.uid ≠ w.targetUID ∨ o.annotation managedUID ≠ l.uid ∨
              o.annotation managedLease ≠ l.name then
            return some (.new "target identity does not match admission record")
          else return none

/-- The target's admitted UID, empty if there is none. -/
def BerthLease.targetUID (l : BerthLease) : String :=
  (l.status.workload.map WorkloadStatus.targetUID).getD ""

/-- `stopTarget`. -/
def stopTarget (l : BerthLease) : Prog ClusterSig (Option Err) :=
  match l.spec.target with
  | none => return none
  | some t => do
    match ← getObject (targetKey l t) with
    | .error e => return e.ignoreNotFound
    | .ok o =>
      if l.targetUID ≠ "" ∧ o.uid ≠ l.targetUID then return none
      else
        let action : LeaseAction :=
          if t.kind = "CronJob" ∧ t.apiVersion = "batch/v1" then { suspend := some true }
          else { scale := some 0 }
        applyFencedAction l.ns (some t) (some action) o.uid (toString l.resourceVersion)

/-! ## Draining -/

/-- `deleteUID`. -/
def deleteUID (o : Object) : Prog ClusterSig (Option Err) := do
  if o.uid = "" then return some (.new "cannot delete a workload without its UID")
  else
    match ← deleteObject o with
    | .error e => return e.ignoreNotFound
    | .ok () => return none

/-- The map `registered` of `drainPods`: the last entry of a name counts. -/
def registeredUID (ps : List PermittedPod) (name : String) : String :=
  ((ps.reverse.find? (·.name == name)).map PermittedPod.uid).getD ""

/-- The lease answers for the Pod. -/
def accountsFor (l : BerthLease) (p : Object) : Bool :=
  registeredUID l.pods p.name == p.uid || p.annotation managedUID == l.uid

/-- The loop of `drainPods`. -/
def drainPodsLoop (l : BerthLease) : List Object → Bool → Prog ClusterSig (Except Err Bool)
  | [], done => return .ok done
  | p :: ps, done =>
    if !accountsFor l p then drainPodsLoop l ps done
    else do
      let done := done && p.terminal
      if p.deletionTimestamp.isNone then
        match ← deleteUID p with
        | some e => return .error e
        | none => drainPodsLoop l ps done
      else drainPodsLoop l ps done

/-- `drainPods`. -/
def drainPods (l : BerthLease) : Prog ClusterSig (Except Err Bool) := do
  match ← listObjects "v1" "Pod" l.ns none with
  | .error e => return .error e.err
  | .ok pods => drainPodsLoop l pods true

/-- Suspend a Job unless it already is. -/
def suspendJob (job : Object) : Prog ClusterSig (Option Err) := do
  if job.suspend.getD false then return none
  else return errOf (← updateObject { job with suspend := some true })

/-- The loop of `drainJobs`. -/
def drainJobsLoop : List Object → Prog ClusterSig (Option Err)
  | [] => return none
  | job :: jobs =>
    if job.deletionTimestamp.isSome then drainJobsLoop jobs
    else do
      match ← suspendJob job with
      | some e => return some e
      | none =>
        match ← deleteUID job with
        | some e => return some e
        | none => drainJobsLoop jobs

/-- `drainJobs`. -/
def drainJobs (l : BerthLease) : Prog ClusterSig (Except Err Bool) := do
  match ← listObjects "batch/v1" "Job" l.ns (some l.uid) with
  | .error e => return .error e.err
  | .ok jobs =>
    match ← drainJobsLoop jobs with
    | some e => return .error e
    | none => return .ok jobs.isEmpty

/-! ## Permits -/

/-- The last step of `permitPod`: take the gate off a registered Pod. -/
def ungatePod (l : BerthLease) (p : Object) : Prog ClusterSig (Except Err BerthLease) := do
  if !hasGate p then return .ok l
  else
    match ← updateObject
        { p with pod :=
            { p.pod with schedulingGates := p.pod.schedulingGates.filter (· ≠ schedulingGate) } } with
    | .error e => return .error (.wrap "remove registered Pod gate" e.err)
    | .ok () => return .ok l

/-- `permitPod` on a Pod whose ancestry is right: register it if it is not
registered, then take the gate off. -/
def registerPod (l : BerthLease) (w : WorkloadStatus) (p : Object) :
    Prog ClusterSig (Except Err BerthLease) := do
  if registered w.pods p.name p.uid then ungatePod l p
  else if !hasGate p then
    return .error (.new "unregistered managed Pod has no scheduling gate")
  else if maxPermittedPods ≤ w.pods.length then
    return .error (.new "maximum 1024 active Pod registrations reached")
  else
    match ← updateStatus
        (l.withWorkload (some { w with pods := w.pods ++ [⟨p.name, p.uid⟩] })) with
    | .error e => return .error (.wrap "register Pod UID" e.err)
    | .ok l => ungatePod l p

/-- `permitPod`. -/
def permitPod (l : BerthLease) (p : Object) : Prog ClusterSig (Except Err BerthLease) := do
  let t ← now
  match activeAt l t, l.status.workload with
  | true, some w =>
    if p.deletionTimestamp.isSome ∨ p.uid = "" then return .ok l
    else if p.annotation managedUID ≠ l.uid ∨ p.annotation managedLease ≠ l.name then
      return .error (.new "pod binding mismatch")
    else
      match ← expectedBinding p with
      | .error e => return .error e
      | .ok root =>
        if root.uid ≠ l.uid ∨ root.targetUID ≠ w.targetUID then
          return .error (.new "pod ancestry differs from admitted target UID")
        else registerPod l w p
  | _, _ => return .ok l

/-- The loop of `permitPods`. -/
def permitPodsLoop : BerthLease → List Object → Prog ClusterSig (Option Err)
  | _, [] => return none
  | l, p :: ps => do
    match ← permitPod l p with
    | .error e => return some e
    | .ok l => permitPodsLoop l ps

/-- `permitPods`. -/
def permitPods (l : BerthLease) : Prog ClusterSig (Option Err) := do
  match ← listObjects "v1" "Pod" l.ns (some l.uid) with
  | .error e => return some e.err
  | .ok pods => permitPodsLoop l pods

/-- The registrations of Pods that are still alive in the listing. -/
def prune (ps : List PermittedPod) (pods : List Object) : List PermittedPod :=
  ps.filter fun p => pods.any fun o => !o.terminal && o.uid == p.uid

/-- `pruneCompleted`, on the record that is about to be written. -/
def pruneCompleted (ns : String) (w : WorkloadStatus) :
    Prog ClusterSig (Except Err WorkloadStatus) := do
  if w.pods.isEmpty then return .ok w
  else
    match ← listObjects "v1" "Pod" ns none with
    | .error e => return .error e.err
    | .ok pods => return .ok { w with pods := prune w.pods pods }

end Berth.Operator
