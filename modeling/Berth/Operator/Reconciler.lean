/-
Berth.Operator.Reconciler — the three reconcilers
(`internal/operator/reconciler.go`, `pod_controller.go`).

One function per stretch of `Reconcile` between two decisions, in the
order of the source. The lease a function gets is the copy in memory: the
one that was read, with the assignments made so far.
-/
import Berth.Operator.Workload

namespace Berth.Operator

open Berth.Interleave Berth.Lease Berth.Api Berth.Client

/-- `ctrl.Result` and the error that is returned with it. -/
structure Result where
  requeueAfter : Duration := 0
  err : Option Err := none
  deriving DecidableEq, Repr

/-- `errors.Join` of two errors. -/
def joinErr : Option Err → Option Err → Option Err
  | none, e => e
  | e, none => e
  | some a, some b => some (.new (a.text ++ "\n" ++ b.text))

namespace Reconciler

variable (cfg : Config)

/-! ## Stopping -/

/-- The record `stopAndRelease` works on. -/
def stopRecord (l : BerthLease) : WorkloadStatus :=
  l.status.workload.getD
    { leaseName := l.spec.leaseName, holder := l.status.currentHolder
      token := l.status.fencingToken }

/-- The lease with activation closed. -/
def closed (l : BerthLease) : BerthLease :=
  ((l.withWorkload (some { stopRecord l with phase := .stopping })).condition
      .heartbeatHealthy false "Stopping" "workload activation is closed during cleanup").condition
    .acquired false "Stopping" "waiting for managed Pods to terminate"

/-- The record without an activation. -/
def clearedRecord (w : WorkloadStatus) : WorkloadStatus :=
  { w with phase := .idle, pods := [], token := 0, holder := "", leaseName := "", deadline := none }

/-- The lease once everything has stopped. -/
def cleared (l : BerthLease) : BerthLease :=
  let l : BerthLease :=
    { l with status :=
      { l.status with
        workload := l.status.workload.map clearedRecord, leaseState := .waiting
        fencingToken := 0, currentHolder := "", expiresAt := none, acquiredAt := none } }
  l.condition .acquired false "Stopped" "managed Pods stopped"

/-- The end of `stopAndRelease`. -/
def finishStop (l : BerthLease) : Prog ClusterSig Result := do
  if l.deletionTimestamp.isSome then
    return { err := errOf (← updateLease
      { l with finalizers := l.finalizers.filter (· ≠ finalizerName) }) }
  else return { requeueAfter := second, err := errOf (← updateStatus (cleared l)) }

/-- The identity under which the lease is released: the one recorded at
activation if there is a record. -/
def releaseIdentity (l : BerthLease) : String × Int × String :=
  match l.status.workload with
  | some w => (w.holder, w.token, w.leaseName)
  | none => (l.status.currentHolder, l.status.fencingToken, l.spec.leaseName)

/-- `stopAndRelease` once nothing runs any more. -/
def releaseAndFinish (l : BerthLease) : Prog ClusterSig Result :=
  let (holder, token, name) := releaseIdentity l
  if holder ≠ "" ∧ 0 < token then do
    match ← LeaseClient.release l ⟨l.ns, name⟩ holder token (localTimeout.tdiv 2) with
    | .error e =>
      if e.is .clientConflict then finishStop l
      else return { requeueAfter := second, err := some e }
    | .ok () => finishStop l
  else finishStop l

/-- `stopAndRelease` of a lease whose persisted phase is `Stopping`. -/
def drainAndRelease (l : BerthLease) : Prog ClusterSig Result := do
  match ← stopTarget l with
  | some e => return { err := some e }
  | none =>
    match ← drainJobs l with
    | .error e => return { err := some e }
    | .ok jobsDone =>
      match ← drainPods l with
      | .error e => return { err := some e }
      | .ok done =>
        if done && jobsDone then releaseAndFinish l
        else return { requeueAfter := second }

/-- `stopAndRelease`. -/
def stopAndRelease (l : BerthLease) : Prog ClusterSig Result := do
  if l.spec.target.isNone then releaseAndFinish l
  else if l.phase = .stopping then drainAndRelease l
  else
    match ← updateStatus (closed l) with
    | .error e => return { err := some e.err }
    | .ok l => drainAndRelease l

/-! ## Holding -/

/-- The condition of the first branch of `Reconcile`. -/
def mustStop (l : BerthLease) : Prog ClusterSig Bool :=
  if l.deletionTimestamp.isSome then return true
  else
    match l.status.workload with
    | none => return false
    | some w =>
      match w.phase with
      | .idle => return false
      | .stopping => return true
      | .active => do
        let t ← now
        return !activeAt l t || w.holder != cfg.holderFor l || (validateSpec l.spec).isSome

/-- The rest of the deadline of an active lease. -/
def untilDeadline (l : BerthLease) : Prog ClusterSig Duration := do
  let t ← now
  return (l.status.workload.bind WorkloadStatus.deadline).getD zeroTime - t

/-- The lease is past its end: an activation whose deadline has passed, or
a target without a record whose last expiry has. -/
def lapsed (l : BerthLease) : Prog ClusterSig Bool :=
  match l.status.workload, l.spec.target, l.status.expiresAt with
  | some w, _, _ =>
    if w.phase = .active then do
      let t ← now
      return !activeAt l t
    else return false
  | none, some _, some expiry => do
    let t ← now
    return !decide (t < expiry)
  | none, _, _ => return false

/-- No longer than the rest of the deadline, if the lease is active at `t`. -/
def clip (l : BerthLease) (t : Time) (d : Duration) : Prog ClusterSig Duration :=
  if activeAt l t then do
    let rest ← untilDeadline l
    return min d rest
  else return d

/-- `Reconcile` after `Acquire` failed. -/
def acquireFailed (l : BerthLease) (heartbeat : Duration) (e : Err) : Prog ClusterSig Result := do
  if ← lapsed l then stopAndRelease l
  else
    let t ← now
    let next ← clip l t (min heartbeat second)
    let r ← updateStatus (l.condition .heartbeatHealthy false "AcquireFailed" e.text)
    return { requeueAfter := next, err := errOf r }

/-- `Reconcile` when somebody else has the lease. -/
def heldByOther (l : BerthLease) (heartbeat ttl : Duration) (res : AcquireResult) :
    Prog ClusterSig Result := do
  if l.spec.target.isSome then stopAndRelease l
  else
    let l : BerthLease :=
      { l with status :=
        { l.status with
          leaseState := .waiting, fencingToken := 0, currentHolder := res.holder
          expiresAt := timePtr res.expiresAt, acquiredAt := none } }
    let l := l.condition .acquired false "HeldByOther" ("lease held by " ++ quote res.holder)
    let l := l.condition .heartbeatHealthy true "Standby" "monitoring for reacquire"
    return { requeueAfter := reacquireInterval heartbeat ttl, err := errOf (← updateStatus l) }

/-- The status of a lease that is held, as written at instant `t`. -/
def heldStatus (l : BerthLease) (w : Option WorkloadStatus) (res : AcquireResult) (t : Time) :
    BerthLease :=
  let l : BerthLease :=
    { l with status :=
      { l.status with
        workload := w, leaseState := .held, currentHolder := res.holder
        fencingToken := res.fencingToken, acquiredAt := timePtr res.acquiredAt
        expiresAt := timePtr res.expiresAt, lastHeartbeat := timePtr t } }
  (l.condition .acquired true "Held"
      ("lease held with fencing token " ++ toString res.fencingToken)).condition
    .heartbeatHealthy true "Heartbeating" "lease renewed"

/-- The end of `Reconcile`: when to come back. -/
def comeBack (heartbeat : Duration) (deadline : Time) : Prog ClusterSig Result := do
  let t ← now
  return { requeueAfter := min heartbeat (deadline - t) }

/-- `Reconcile` after ownership is persisted. -/
def activateTarget (l : BerthLease) (heartbeat : Duration) (deadline : Time) :
    Prog ClusterSig Result := do
  match ← applyActionForUID l.ns l.spec.target l.spec.acquireAction l.targetUID with
  | some e => return { err := some e }
  | none =>
    match ← permitPods l with
    | some e => return { err := some e }
    | none => comeBack heartbeat deadline

/-- `Reconcile` from the status write on. -/
def persist (l : BerthLease) (w : Option WorkloadStatus) (res : AcquireResult)
    (heartbeat : Duration) (deadline : Time) : Prog ClusterSig Result := do
  let t ← now
  match ← updateStatus (heldStatus l w res t) with
  | .error e => return { err := some (.wrap "persist ownership" e.err) }
  | .ok l =>
    if l.spec.target.isSome then activateTarget l heartbeat deadline
    else comeBack heartbeat deadline

/-- The activation record of a lease that is held until `deadline`. -/
def activeRecord (l : BerthLease) (w : WorkloadStatus) (res : AcquireResult) (deadline : Time) :
    WorkloadStatus :=
  { w with
    phase := .active, leaseName := l.spec.leaseName, holder := res.holder
    token := res.fencingToken, deadline := timePtr deadline }

/-- `Reconcile` with a grant that is valid until `deadline`. A target
without a record does not get here (`verifyTarget`). -/
def hold (l : BerthLease) (res : AcquireResult) (heartbeat : Duration) (deadline : Time) :
    Prog ClusterSig Result :=
  match l.spec.target, l.status.workload with
  | none, w => persist l w res heartbeat deadline
  | some _, none => return { err := some (.new "invalid memory address or nil pointer dereference") }
  | some _, some w =>
    if w.phase = .active ∧ w.token ≠ res.fencingToken then stopAndRelease l
    else do
      match ← pruneCompleted l.ns (activeRecord l w res deadline) with
      | .error e => return { err := some e }
      | .ok w => persist l (some w) res heartbeat deadline

/-- `Reconcile` on a positive answer to an Acquire sent at `started`. -/
def granted (l : BerthLease) (heartbeat ttl : Duration) (started : Time) (res : AcquireResult) :
    Prog ClusterSig Result := do
  if res.fencingToken ≤ 0 ∨ res.holder ≠ cfg.holderFor l then
    return { err := some (.new "invalid central ownership response") }
  else
    let t ← now
    if ¬ t < res.expiresAt then
      return { err := some (.new "invalid central ownership response") }
    else
      let deadline := truncSecond (minTime (started + ttl) res.expiresAt)
      let t ← now
      if ¬ t < deadline then stopAndRelease l
      else hold l res heartbeat deadline

/-- `Reconcile` from the Acquire on. -/
def acquire (l : BerthLease) : Prog ClusterSig Result := do
  let started ← now
  let ttl := l.spec.ttlSeconds * second
  let heartbeat := l.spec.heartbeatIntervalSeconds * second
  let budget ← clip l started (min heartbeat (localTimeout.tdiv 2))
  match ← LeaseClient.acquire l l.central (cfg.holderFor l) ttl budget with
  | .error e => acquireFailed l heartbeat e
  | .ok res =>
    if !res.acquired then heldByOther l heartbeat ttl res
    else granted cfg l heartbeat ttl started res

/-- `Reconcile` on a target that could not be verified. -/
def unverified (l : BerthLease) (e : Err) : Prog ClusterSig Result := do
  if l.phase = .active then stopAndRelease l
  else
    let stopErr ← stopTarget l
    let r ← updateStatus (l.condition .acquired false "AdmissionRequired" e.text)
    return { requeueAfter := second, err := joinErr stopErr (errOf r) }

/-- `Reconcile` on a lease that has the finalizer. -/
def observe (l : BerthLease) : Prog ClusterSig Result := do
  if ← mustStop cfg l then stopAndRelease l
  else
    match validateSpec l.spec, l.spec.target with
    | some _, some _ => stopAndRelease l
    | some e, none =>
      return { err := errOf (← updateStatus
        (l.condition .acquired false "InvalidSpec" e.text)) }
    | none, none => acquire cfg l
    | none, some t =>
      match ← verifyTarget cfg l t with
      | some e => unverified l e
      | none => acquire cfg l

/-- `BerthLeaseReconciler.Reconcile`. -/
def reconcile (key : Key) : Prog ClusterSig Result := do
  match ← getLease key with
  | .error e => return { err := e.ignoreNotFound }
  | .ok l =>
    if finalizerName ∉ l.finalizers then
      if l.deletionTimestamp.isSome then return {}
      else
        return { err := errOf (← updateLease
          { l with finalizers := l.finalizers ++ [finalizerName] }) }
    else observe cfg { l with status := { l.status with observedGeneration := l.generation } }

/-! ## Pods and Jobs -/

/-- The lease closes its Pods down. -/
def closing (l : BerthLease) : Bool := l.deletionTimestamp.isSome || l.phase == .stopping

/-- `managedPodReconciler.Reconcile`. -/
def reconcilePod (key : Key) : Prog ClusterSig Result := do
  match ← getObject ⟨"v1", "Pod", key.ns, key.name⟩ with
  | .error e => return { err := e.ignoreNotFound }
  | .ok pod =>
    let uid := pod.annotation managedUID
    if uid = "" then return {}
    else
      match ← getLease ⟨pod.ns, pod.annotation managedLease⟩ with
      | .error .notFound => return { err := ← deleteUID pod }
      | .error e => return { err := some e.err }
      | .ok l =>
        if l.uid ≠ uid then return { err := ← deleteUID pod }
        else if closing l then return { requeueAfter := second, err := ← deleteUID pod }
        else
          let t ← now
          if !activeAt l t then return { requeueAfter := second }
          else
            match ← permitPod l pod with
            | .error e => return { requeueAfter := second, err := some e }
            | .ok _ => return { requeueAfter := second }

/-- The Job part of `managedJobReconciler.Reconcile`. -/
def stopJob (job : Object) : Prog ClusterSig Result := do
  match ← suspendJob job with
  | some e => return { err := some e }
  | none => return { requeueAfter := second, err := ← deleteUID job }

/-- `managedJobReconciler.Reconcile`. -/
def reconcileJob (key : Key) : Prog ClusterSig Result := do
  match ← getObject ⟨"batch/v1", "Job", key.ns, key.name⟩ with
  | .error e => return { err := e.ignoreNotFound }
  | .ok job =>
    let uid := job.annotation managedUID
    if uid = "" then return {}
    else
      match ← getLease ⟨job.ns, job.annotation managedLease⟩ with
      | .error .notFound => stopJob job
      | .error e => return { err := some e.err }
      | .ok l =>
        if l.uid ≠ uid || closing l then stopJob job
        else return { requeueAfter := second }

end Reconciler

end Berth.Operator
