/-
Berth.Lease.Backends — the three stores, each used by one caller at a
time, and what they are meant to be.

A `Ledger` is the purpose of a store: the records written so far. A key
reads as its last record, the version of a key is that of its last record
(0 before the first), and a write goes through if it expects exactly that
version. `Ledger.step` answers a call from it.

Each backend answers the same calls with its own state: the memory store
directly, the Kubernetes store through requests to an API server that
refuses invalid Leases, the SQL store through statements to a database.
-/
import Berth.Lease.Database
import Berth.Lease.K8sServer
import Berth.Lease.MemStore

namespace Berth.Lease

open Berth.Interleave

open K8s (StoreCall StoreOutcome)

/-! ## The ledger -/

/-- The records written, newest first. -/
abbrev Ledger := List Record

namespace Ledger

/-- The last record of a key. -/
def latest (w : Ledger) (key : Key) : Option Record := w.find? fun r => r.key == key

/-- The last record of every key. -/
def current : Ledger → List Record
  | [] => []
  | r :: w => r :: (current w).filter fun r' => r'.key ≠ r.key

def version (w : Ledger) (key : Key) : Int := ((w.latest key).map Record.version).getD 0

/-- The answer to a call, and the ledger after it. -/
def step (w : Ledger) : StoreCall → StoreOutcome × Ledger
  | .get key =>
    match w.latest key with
    | none => (.record (.error errNotFound), w)
    | some r => (.record (.ok r), w)
  | .list => (.records (.ok w.current), w)
  | .put expectedVersion rec =>
    if expectedVersion = w.version rec.key then
      (.done (.ok ()), { rec with version := expectedVersion + 1 } :: w)
    else (.done (.error errConflict), w)

end Ledger

/-- The answers to a program of calls that starts with nothing stored. -/
def answers (calls : List StoreCall) : List StoreOutcome := replay Ledger.step [] calls

/-- A record as the Manager and the sweep write it. -/
structure Record.Proper (r : Record) : Prop where
  key : validateKey r.key = .ok ()
  ttl : (∃ n : Int, 1 ≤ n ∧ n ≤ maxInt32 ∧ r.ttl = n * second) ∨ (r.holder = "" ∧ r.ttl = 0)
  token : 1 ≤ r.fencingToken ∧ r.fencingToken ≤ maxInt32

/-- A call about accepted keys and proper records. -/
def K8s.StoreCall.Proper : StoreCall → Prop
  | .get key => validateKey key = .ok ()
  | .list => True
  | .put _ rec => rec.Proper

/-- A record whose times are kept as `keep` says. -/
def Record.kept (keep : Time → Time) (r : Record) : Record :=
  { r with acquiredAt := keep r.acquiredAt, renewedAt := keep r.renewedAt }

/-- The outcome is the answer, with times kept as `keep` says and a
listing in any order. -/
def Reads (keep : Time → Time) : StoreOutcome → StoreOutcome → Prop
  | .record r, o => o = .record (r.map (Record.kept keep))
  | .records (.ok rs), o => ∃ rs', o = .records (.ok rs') ∧ rs'.Perm (rs.map (Record.kept keep))
  | .records (.error e), o => o = .records (.error e)
  | .done r, o => o = .done r

/-! ## Calls to the backends -/

/-- A call to the memory store. -/
def MemStore.call : StoreCall → MemStore → StoreOutcome → MemStore → Prop
  | .get key, s, o, s' => o = .record (s.get key) ∧ s' = s
  | .list, s, o, s' => (∃ rs, rs.Perm s.list ∧ o = .records (.ok rs)) ∧ s' = s
  | .put v rec, s, o, s' => o = .done (s.put v rec).1 ∧ s' = (s.put v rec).2

namespace K8s

/-- What the API server refuses of a Lease. -/
def invalid (o : LeaseObject) : Bool :=
  !(isDNS1123Subdomain o.name).isEmpty || o.spec.leaseDurationSeconds.any (· ≤ 0) ||
    o.spec.leaseTransitions.any (· < 0)

/-- The server refuses the request, with an error the store does not
expect. -/
def Refuses (msg : String) : (o : K8sOp) → o.Res → Prop
  | .create l, r => invalid l = true ∧ r = .error (.other msg)
  | .update l, r => invalid l = true ∧ r = .error (.other msg)
  | _, _ => False

/-- The server takes the request up. -/
def Takes : K8sOp → Prop
  | .create l => invalid l = false
  | .update l => invalid l = false
  | _ => True

/-- Choices without a fault. -/
def Healthy : Choice → Prop
  | .answer => True
  | .order _ => True
  | .ctx err => err = none
  | .fault _ => False
  | .late _ => False

/-- An API server that nobody else uses: it checks a Lease and then does
as the shared server does. -/
def apiServer : Handler K8sSig Server := fun o s r s' =>
  (∃ msg, Refuses msg o r ∧ s' = s) ∨
    (Takes o ∧ ∃ ch l l', Healthy ch ∧ exec 0 ch o l s = some (r, l', s'))

/-- A call to the Kubernetes store of namespace `ns`. -/
def call (ns : String) (c : StoreCall) (s : Server) (o : StoreOutcome) (s' : Server) : Prop :=
  (prog ns c).Served apiServer s o s'

end K8s

namespace SqlStore

variable {driver : Driver} (e : Engine driver)

/-- The program of a call. -/
def prog : StoreCall → Prog SqlSig StoreOutcome
  | .get key => do return .record (← get e.text key)
  | .list => do return .records (← list e.text)
  | .put v rec => do return .done (← put e.dialect v rec)

/-- A call to the SQL store. -/
def call (c : StoreCall) (s : Database) (o : StoreOutcome) (s' : Database) : Prop :=
  (prog e c).Served e.serve s o s'

end SqlStore

/-! ## Backends -/

inductive Backend where
  | memory
  | kubernetes (ns : String) (revision : Nat)
  | sql (driver : Driver) (e : Engine driver)

namespace Backend

/-- What a backend keeps of an instant. -/
def keeps : Backend → Time → Time
  | .memory => id
  | .kubernetes _ _ => microTime
  | .sql .postgres _ => microTime
  | .sql .mysql _ => microTime
  | .sql .sqlite _ => id

/-- The calls, made one after the other from an empty store, return these
outcomes. -/
def Runs : Backend → List StoreCall → List StoreOutcome → Prop
  | .memory => Interleave.Runs MemStore.call .new
  | .kubernetes ns revision =>
    Interleave.Runs (K8s.call ns) { objects := ∅, revision := revision, log := [] }
  | .sql _ e => Interleave.Runs (SqlStore.call e) .new

end Backend

end Berth.Lease
