/-
Berth.Lease.K8sServer — the API server, any number of store calls and
foreign writers.

The API server keeps objects by name and one revision counter. Every
write takes the next revision as the object's resource version; an update
whose resource version is not the stored one answers 409, a create of an
existing name answers AlreadyExists. Foreign writers change labels and
annotations of existing objects, but not those Berth owns, and nobody
deletes. A request may also fail without effect, or be applied while the
caller sees a failure.

As a ghost the server keeps a log of its writes, newest first, with the
object right before and right after each.
-/
import Berth.Interleave.Pool
import Berth.Lease.History
import Berth.Lease.K8sStore

namespace Berth.Lease.K8s

open Berth.Interleave

/-! ## Calls and state -/

inductive StoreCall where
  | get (key : Key)
  | list
  | put (expectedVersion : Int) (rec : Record)

inductive StoreOutcome where
  | record (r : Except Err Record)
  | records (r : Except Err (List Record))
  | done (r : Except Err Unit)

/-- One write. `tid` is the call that made it, `none` for a foreign
writer; `put` is what that call was asked to store. -/
structure ObjectWrite where
  tid : Option Nat
  put : Option (Int × Record)
  name : String
  before : Option LeaseObject
  after : LeaseObject

structure Server where
  objects : AList (fun _ : String => LeaseObject)
  revision : Nat
  log : List ObjectWrite

/-- A server before the run: any objects, each under its own name and
with a resource version that has been handed out. -/
structure Initial where
  objects : AList (fun _ : String => LeaseObject)
  revision : Nat
  named : ∀ name o, objects.lookup name = some o → o.name = name
  bounded : ∀ name o, objects.lookup name = some o → o.resourceVersion ≤ revision

def Initial.server (init : Initial) : Server :=
  { objects := init.objects, revision := init.revision, log := [] }

/-- Ghost bookkeeping of one call: what its reads saw of the record's
version (`none` for an absent object), the length of the log at its last
read, and the pair of lengths at read and update of each attempt. -/
structure Loc where
  call : StoreCall
  readAt : Nat
  reads : List (Option Int)
  attempts : List (Nat × Nat)

def Loc.read (l : Loc) (s : Server) (o : Option LeaseObject) : Loc :=
  { l with readAt := s.log.length, reads := o.map versionFromLease :: l.reads }

def Loc.tried (l : Loc) (s : Server) : Loc :=
  { l with attempts := (l.readAt, s.log.length) :: l.attempts }

/-! ## Steps -/

inductive Choice where
  | answer
  | fault (msg : String)
  | late (msg : String)
  | order (items : List LeaseObject)
  | ctx (err : Option Err)

def putOf : StoreCall → Option (Int × Record)
  | .put v rec => some (v, rec)
  | _ => none

/-- Store `o` under its name with the next resource version. -/
def Server.write (s : Server) (tid : Option Nat) (put : Option (Int × Record))
    (o : LeaseObject) : Server :=
  { objects := s.objects.insert o.name { o with resourceVersion := s.revision + 1 }
    revision := s.revision + 1
    log := { tid := tid, put := put, name := o.name, before := s.objects.lookup o.name
             after := { o with resourceVersion := s.revision + 1 } } :: s.log }

/-- A create request. -/
def Server.create (s : Server) (i : Nat) (l : Loc) (o : LeaseObject) :
    Except ApiError Unit × Loc × Server :=
  match s.objects.lookup o.name with
  | some cur => (.error .alreadyExists, l.read s (some cur), s)
  | none => (.ok (), l, s.write (some i) (putOf l.call) o)

/-- An update request. -/
def Server.update (s : Server) (i : Nat) (l : Loc) (o : LeaseObject) :
    Except ApiError Unit × Loc × Server :=
  match s.objects.lookup o.name with
  | none => (.error .notFound, l.tried s, s)
  | some cur =>
    if cur.resourceVersion = o.resourceVersion then
      (.ok (), l.tried s, s.write (some i) (putOf l.call) o)
    else (.error .conflict, l.tried s, s)

/-- The objects a label selector picks. -/
def Server.select (s : Server) (label value : String) : List LeaseObject :=
  (s.objects.entries.map (·.2)).filter fun o => o.labels.lookup label == some value

def exec (i : Nat) (ch : Choice) : (o : K8sOp) → Loc → Server → Option (o.Res × Loc × Server)
  | .get name, l, s =>
    match ch with
    | .answer =>
      match s.objects.lookup name with
      | none => some (Except.error .notFound, l.read s none, s)
      | some o => some (Except.ok o, l.read s (some o), s)
    | .fault msg => some (Except.error (.other msg), l, s)
    | _ => none
  | .list label value, l, s =>
    match ch with
    | .order items =>
      if items.isPerm (s.select label value) then some (Except.ok items, l, s) else none
    | .fault msg => some (Except.error (.other msg), l, s)
    | _ => none
  | .create o, l, s =>
    match ch with
    | .answer => some (s.create i l o)
    | .fault msg => some (Except.error (.other msg), l, s)
    | .late msg => some (Except.error (.other msg), l, (s.create i l o).2.2)
    | _ => none
  | .update o, l, s =>
    match ch with
    | .answer => some (s.update i l o)
    | .fault msg => some (Except.error (.other msg), l.tried s, s)
    | .late msg => some (Except.error (.other msg), l.tried s, (s.update i l o).2.2)
    | _ => none
  | .ctxErr, l, s =>
    match ch with
    | .ctx err => some (err, l, s)
    | _ => none

/-- A foreign write: new labels and annotations for one object. -/
structure ForeignWrite where
  name : String
  labels : StringMap
  annotations : StringMap

/-- The foreign writer leaves what Berth owns alone. -/
def ForeignWrite.respects (f : ForeignWrite) (o : LeaseObject) : Bool :=
  f.labels.lookup managedByLabel == o.labels.lookup managedByLabel &&
    ownedAnnotations.all fun a => f.annotations.lookup a == o.annotations.lookup a

def foreignWrite (f : ForeignWrite) (s : Server) : Option Server :=
  match s.objects.lookup f.name with
  | none => none
  | some o =>
    if f.respects o then
      some (s.write none none { o with labels := f.labels, annotations := f.annotations })
    else none

/-- The program of a call, for the store of namespace `ns`. -/
def prog (ns : String) : StoreCall → Prog K8sSig StoreOutcome
  | .get key => do return .record (← K8sLeaseStore.get key)
  | .list => do return .records (← K8sLeaseStore.list)
  | .put v rec => do return .done (← K8sLeaseStore.put ns v rec)

def machine (ns : String) : Machine K8sSig where
  Call := StoreCall
  Out := StoreOutcome
  Loc := Loc
  State := Server
  Choice := Choice
  Env := ForeignWrite
  prog := prog ns
  start := fun _ c s => some ({ call := c, readAt := s.log.length, reads := [], attempts := [] }, s)
  exec := exec
  env := foreignWrite

end Berth.Lease.K8s
