/-
Berth.Lease.K8sStore — the Kubernetes store
(`internal/lease/k8sstore.go`).

One lease is one `coordination.k8s.io` Lease object. Its write counter is
an annotation, its concurrency token on the wire is the object's
resource version, which every writer bumps. `K8sLeaseStore.put` is a
program over API requests, one request at a time, so that other writers
can act between its Get and its Update.

A version counts the successful writes of one key. It is an `int64`: an
annotation outside its range does not parse, and the successor of the
largest one wraps around. Timestamps are stored with microsecond
precision (`metav1.MicroTime`).
-/
import Berth.Interleave.Prog
import Berth.Lease.Decimal
import Mathlib.Data.List.AList

namespace Berth.Lease

open Berth.Interleave

/-! ## Objects -/

/-- A Go `map[string]string`; a nil map is the empty one. -/
abbrev StringMap := AList (fun _ : String => String)

/-- `coordinationv1.LeaseSpec`. -/
structure LeaseSpec where
  holderIdentity : Option String := none
  leaseDurationSeconds : Option Int := none
  acquireTime : Option Time := none
  renewTime : Option Time := none
  leaseTransitions : Option Int := none
  deriving DecidableEq

/-- `coordinationv1.Lease`, as far as the store reads or writes it. -/
structure LeaseObject where
  name : String
  ns : String
  resourceVersion : Nat
  labels : StringMap
  annotations : StringMap
  spec : LeaseSpec
  deriving DecidableEq

def managedByLabel : String := "berth.skaphos.io/managed-by"
def managedByValue : String := "berth"
def tenantNamespaceAnnotation : String := "berth.skaphos.io/tenant-namespace"
def leaseNameAnnotation : String := "berth.skaphos.io/lease-name"
def versionAnnotation : String := "berth.skaphos.io/version"

/-- The annotations Berth owns. -/
def ownedAnnotations : List String :=
  [ tenantNamespaceAnnotation, leaseNameAnnotation, versionAnnotation]

/-! ## Times -/

/-- What a `metav1.MicroTime` keeps of an instant. -/
def microTime (t : Time) : Time := t / 1000 * 1000

/-! ## Records and objects -/

/-- `k8sLeaseName`. -/
def k8sLeaseName (key : Key) : String := key.ns ++ "." ++ key.name

/-- `versionFromLease`. -/
def versionFromLease (l : LeaseObject) : Int :=
  match parseInt ((l.annotations.lookup versionAnnotation).getD "") with
  | none => 1
  | some v => if v < 1 then 1 else v

/-- `recordFromLease`. -/
def recordFromLease (l : LeaseObject) : Except Err Record :=
  match l.annotations.lookup tenantNamespaceAnnotation with
  | none => .error (.new ("lease " ++ l.ns ++ "/" ++ l.name ++ ": missing annotation " ++
      tenantNamespaceAnnotation))
  | some tenant =>
    match l.annotations.lookup leaseNameAnnotation with
    | none => .error (.new ("lease " ++ l.ns ++ "/" ++ l.name ++ ": missing annotation " ++
        leaseNameAnnotation))
    | some name =>
      .ok { key := ⟨tenant, name⟩
            holder := l.spec.holderIdentity.getD ""
            ttl := l.spec.leaseDurationSeconds.getD 0 * second
            acquiredAt := l.spec.acquireTime.getD zeroTime
            renewedAt := l.spec.renewTime.getD zeroTime
            fencingToken := l.spec.leaseTransitions.getD 0
            version := versionFromLease l }

/-- `leaseDuration`: a tombstone has none, because zero is rejected. -/
def leaseDuration (rec : Record) : Option Int :=
  if rec.tombstone && rec.ttl == 0 then none else some (toInt32 (rec.ttl.tdiv second))

/-- The spec that both `leaseFromRecord` and `applyRecordToLease` write. -/
def specOf (rec : Record) : LeaseSpec :=
  { holderIdentity := some rec.holder
    leaseDurationSeconds := leaseDuration rec
    acquireTime := some (microTime rec.acquiredAt)
    renewTime := some (microTime rec.renewedAt)
    leaseTransitions := some rec.fencingToken }

/-- The annotations both write, over what is there. -/
def stampAnnotations (m : StringMap) (rec : Record) (version : Int) : StringMap :=
  ((m.insert tenantNamespaceAnnotation rec.key.ns).insert leaseNameAnnotation
    rec.key.name).insert versionAnnotation (formatInt version)

/-- `leaseFromRecord`. -/
def leaseFromRecord (rec : Record) (ns : String) (version : Int) : LeaseObject :=
  { name := k8sLeaseName rec.key, ns := ns, resourceVersion := 0
    labels := (∅ : StringMap).insert managedByLabel managedByValue
    annotations := stampAnnotations ∅ rec version
    spec := specOf rec }

/-- `applyRecordToLease`. -/
def applyRecordToLease (l : LeaseObject) (rec : Record) (version : Int) : LeaseObject :=
  { l with
    spec := specOf rec
    annotations := stampAnnotations l.annotations rec version
    labels := l.labels.insert managedByLabel managedByValue }

/-! ## The store, over API requests -/

/-- The API errors the store tells apart. -/
inductive ApiError where
  | notFound
  | alreadyExists
  | conflict
  | other (msg : String)
  deriving DecidableEq, Repr

/-- An API error as a Go error. -/
def ApiError.toErr : ApiError → Err
  | .notFound => .new "not found"
  | .alreadyExists => .new "already exists"
  | .conflict => .new "the object has been modified"
  | .other msg => .new msg

inductive K8sOp where
  | get (name : String)
  | list (label value : String)
  | create (l : LeaseObject)
  | update (l : LeaseObject)
  | ctxErr

def K8sOp.Res : K8sOp → Type
  | .get _ => Except ApiError LeaseObject
  | .list _ _ => Except ApiError (List LeaseObject)
  | .create _ => Except ApiError Unit
  | .update _ => Except ApiError Unit
  | .ctxErr => Option Err

def K8sSig : Sig := ⟨K8sOp, K8sOp.Res⟩

namespace Leases

def get (name : String) : Prog K8sSig (Except ApiError LeaseObject) :=
  Prog.perform (S := K8sSig) (.get name)

def list (label value : String) : Prog K8sSig (Except ApiError (List LeaseObject)) :=
  Prog.perform (S := K8sSig) (.list label value)

def create (l : LeaseObject) : Prog K8sSig (Except ApiError Unit) :=
  Prog.perform (S := K8sSig) (.create l)

def update (l : LeaseObject) : Prog K8sSig (Except ApiError Unit) :=
  Prog.perform (S := K8sSig) (.update l)

def ctxErr : Prog K8sSig (Option Err) := Prog.perform (S := K8sSig) .ctxErr

end Leases

/-- `%s` of a `Key`. -/
def Key.text (key : Key) : String := "\x7b" ++ key.ns ++ " " ++ key.name ++ "\x7d"

namespace K8sLeaseStore

/-- `K8sLeaseStore.Get`. -/
def get (key : Key) : Prog K8sSig (Except Err Record) := do
  match ← Leases.get (k8sLeaseName key) with
  | .error .notFound => return .error errNotFound
  | .error e => return .error (.wrap ("k8s lease store: get " ++ key.text) e.toErr)
  | .ok l => return recordFromLease l

/-- `K8sLeaseStore.List`: objects that are not ours are skipped. -/
def list : Prog K8sSig (Except Err (List Record)) := do
  match ← Leases.list managedByLabel managedByValue with
  | .error e => return .error (.wrap "k8s lease store: list" e.toErr)
  | .ok items => return .ok (items.filterMap fun l => (recordFromLease l).toOption)

def maxPutUpdateAttempts : Nat := 4

/-- The update loop of `K8sLeaseStore.Put`. -/
def putLoop (expectedVersion : Int) (rec : Record) : Nat → Prog K8sSig (Except Err Unit)
  | 0 => return .error errConflict
  | n + 1 => do
    match ← Leases.ctxErr with
    | some err => return .error (.wrap ("k8s lease store: put " ++ rec.key.text) err)
    | none =>
      match ← Leases.get (k8sLeaseName rec.key) with
      | .error .notFound => return .error errConflict
      | .error e =>
        return .error (.wrap ("k8s lease store: get " ++ rec.key.text ++ " for put") e.toErr)
      | .ok cur =>
        if versionFromLease cur ≠ expectedVersion then return .error errConflict
        else
          match ← Leases.update (applyRecordToLease cur rec (toInt64 (expectedVersion + 1))) with
          | .ok () => return .ok ()
          | .error .conflict => putLoop expectedVersion rec n
          | .error e =>
            return .error (.wrap ("k8s lease store: update " ++ rec.key.text) e.toErr)

/-- `K8sLeaseStore.Put`, on a record that is not nil. -/
def put (ns : String) (expectedVersion : Int) (rec : Record) :
    Prog K8sSig (Except Err Unit) :=
  if expectedVersion = 0 then do
    match ← Leases.create (leaseFromRecord rec ns 1) with
    | .ok () => return .ok ()
    | .error .alreadyExists => return .error errConflict
    | .error e =>
      return .error (.wrap ("k8s lease store: create " ++ rec.key.text) e.toErr)
  else putLoop expectedVersion rec maxPutUpdateAttempts

end K8sLeaseStore

end Berth.Lease
