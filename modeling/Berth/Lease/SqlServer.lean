/-
Berth.Lease.SqlServer — one database and any number of store calls.

The calls run on connections of their own. A query reads the committed
rows of one instant. An execution takes the row of its key: while another
transaction has written a row and not ended, an execution on that row
waits, and then works on what has been committed. A commit makes the
written row visible; what a transaction wrote is gone when it rolls back
or its connection is lost. Every transaction of the store executes at
most one statement, so a session has room for one.

Any request may also fail. An execution or a commit may fail without
effect, or take effect while the caller sees a failure; a connection may
be lost at any time. A duplicate key is only reported for a duplicate key.

As a ghost the database keeps a log of the rows committed, newest first,
with the row right before and right after each write.
-/
import Berth.Interleave.Pool
import Berth.Lease.Backends

namespace Berth.Lease

open Berth.Interleave

namespace Sql

open K8s (StoreCall StoreOutcome)

variable {driver : Driver}

/-! ## Calls and state -/

/-- An open transaction and the statement it has executed. -/
structure Session where
  readOnly : Bool
  pending : Option Statement

/-- One committed write; `tid` is the call that made it. -/
structure RowWrite where
  tid : Nat
  before : Option Row
  after : Row
  deriving DecidableEq

/-- Sessions are numbered as the calls that opened them. -/
structure Server where
  rows : List Row
  sessions : AList fun _ : Nat => Session
  log : List RowWrite

/-- A database before the run: any rows, one for a key. -/
structure Initial where
  rows : List Row
  distinct : Distinct rows

def Initial.server (init : Initial) : Server := { rows := init.rows, sessions := ∅, log := [] }

/-- The row of a key after the writes `ws`: the suffixes of the log are
the instants of the table's life. -/
def rowAfter (init : Initial) (ws : List RowWrite) (key : Key) : Option Row :=
  match ws.find? fun x => x.after.key = key with
  | some x => some x.after
  | none => rowAt init.rows key

/-- Ghost bookkeeping of one call: the length of the log when it started. -/
structure Loc where
  call : StoreCall
  started : Nat

/-! ## Steps -/

inductive Choice where
  | answer
  | fault (err : DbErr)
  | late (err : DbErr)
  | uncounted (err : DbErr)
  | order (rows : List Row)
  | cut (rows : List Row) (err : DbErr)

/-- `driver.ErrBadConn`. -/
def badConn : DbErr := ⟨none, "driver: bad connection"⟩

/-- A failure that is not about the statement. -/
def unrelated (err : DbErr) : Bool := err.number != some 1062

/-- Whether another transaction has written the row and not ended. -/
def Server.locked (s : Server) (i : Nat) (key : Key) : Bool :=
  s.sessions.entries.any fun x => x.1 != i && x.2.pending.any fun st => st.key = key

/-- What the caller hears of an execution, from the number of rows it
affects, and whether it took place. -/
def heard (ch : Choice) (ran : Except DbErr Nat) :
    Option (Except DbErr (Except DbErr Nat) × Bool) :=
  match ch with
  | .answer => some (ran.map .ok, true)
  | .uncounted err => some (ran.map fun _ => .error err, true)
  | .late err => if unrelated err then some (.error err, true) else none
  | .fault err => if unrelated err then some (.error err, false) else none
  | _ => none

/-- The session of a transaction whose statement affects a row. -/
def Server.hold (s : Server) (i : Nat) (tx : Session) (st : Statement) : Server :=
  { s with sessions := s.sessions.insert i { tx with pending := some st } }

def Server.close (s : Server) (i : Nat) : Server := { s with sessions := s.sessions.erase i }

/-- Commit what the transaction has executed. Nobody else has written the
row since, so the statement does again what it did when it was executed. -/
def Server.land (e : Engine driver) (s : Server) (i : Nat) (tx : Session) : Server :=
  match tx.pending with
  | none => s
  | some st =>
    match e.run s.rows st with
    | .error _ => s
    | .ok (_, rows) =>
      { s with
        rows := rows
        log := { tid := i, before := rowAt s.rows st.key, after := st.row e } :: s.log }

def exec (e : Engine driver) (i : Nat) (ch : Choice) :
    (o : SqlOp) → Loc → Server → Option (o.Res × Loc × Server)
  | .beginTx readOnly, l, s =>
    match ch with
    | .answer =>
      some (Except.ok (), l, { s with sessions := s.sessions.insert i ⟨readOnly, none⟩ })
    | .fault err => some (Except.error err, l, s)
    | _ => none
  | .query q, l, s =>
    if (s.sessions.lookup i).isNone then some (Except.error badConn, l, s)
    else
      match ch with
      | .order rows =>
        if rows.isPerm (q.select s.rows) then some (Except.ok ⟨rows, none⟩, l, s) else none
      | .cut rows err =>
        if rows.all (q.select s.rows).contains then some (Except.ok ⟨rows, some err⟩, l, s)
        else none
      | .fault err => some (Except.error err, l, s)
      | _ => none
  | .exec st, l, s =>
    match s.sessions.lookup i with
    | none => some (Except.error badConn, l, s)
    | some tx =>
      if tx.readOnly || tx.pending.isSome then some (Except.error badConn, l, s)
      else if s.locked i st.key then none
      else
        let ran := (e.run s.rows st).map Prod.fst
        (heard ch ran).map fun x =>
          (x.1, l, if x.2 && ran.toOption.any (0 < ·) then s.hold i tx st else s)
  | .commit, l, s =>
    match s.sessions.lookup i with
    | none => some (Except.error badConn, l, s)
    | some tx =>
      match ch with
      | .answer => some (Except.ok (), l, (s.land e i tx).close i)
      | .fault err => some (Except.error err, l, s.close i)
      | .late err => some (Except.error err, l, (s.land e i tx).close i)
      | _ => none
  | .rollback, l, s => some ((), l, s.close i)

/-- The program of a call. -/
def prog (e : Engine driver) : StoreCall → Prog SqlSig StoreOutcome
  | .get key => do return .record (← SqlStore.get e.text key)
  | .list => do return .records (← SqlStore.list e.text)
  | .put v rec => do return .done (← SqlStore.put e.dialect v rec)

/-- Without any call, the connection of one of them is lost. -/
def machine (e : Engine driver) : Machine SqlSig where
  Call := StoreCall
  Out := StoreOutcome
  Loc := Loc
  State := Server
  Choice := Choice
  Env := Nat
  prog := prog e
  start := fun _ c s => some ({ call := c, started := s.log.length }, s)
  exec := exec e
  env := fun i s => some (s.close i)

end Sql

end Berth.Lease
