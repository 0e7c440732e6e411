/-
Berth.Lease.SqlStore — the SQL store
(`internal/lease/sqlstore/sqlstore.go`, `dialect.go`).

One lease is one row of `berth_leases`. A method of the store is a program
over `database/sql`: it opens a transaction, runs one statement and
commits, and whatever happens in between, the deferred rollback ends the
transaction. What the database does with a statement is said elsewhere
(`Lease/Database.lean`).

A statement is kept as what its text asks for. The three dialects differ
in what an insert does with a key that is there, in how an instant is
handed to the driver, and in which error is a duplicate key. Durations are
stored in milliseconds. `time.Format` and `time.Parse` are a parameter.
-/
import Berth.Interleave.Prog
import Berth.Lease.K8sStore

namespace Berth.Lease

open Berth.Interleave

/-! ## Values -/

/-- `time.Millisecond`. -/
def millisecond : Duration := 1000000

/-- `time.Microsecond`. -/
def microsecond : Duration := 1000

/-- `Duration.Milliseconds`. -/
def milliseconds (d : Duration) : Int := d.tdiv millisecond

/-- `Time.Truncate`: down to a multiple of `d` since the zero time. -/
def truncate (t : Time) (d : Duration) : Time := t - (t - zeroTime) % d

/-- A time as a driver takes it or hands it over. -/
inductive TimeValue where
  | time (t : Time)
  | text (s : String)
  | bytes (s : String)
  | other (type : String)
  deriving DecidableEq, Repr

/-- `time.Format` and `time.Parse`, by layout. -/
structure TimeText where
  format : String → Time → String
  parse : String → String → Option Time

/-- `time.RFC3339Nano`. -/
def rfc3339Nano : String := "2006-01-02T15:04:05.999999999Z07:00"

def layouts : List String :=
  [ rfc3339Nano, "2006-01-02 15:04:05.999999999Z07:00", "2006-01-02 15:04:05.999999Z07:00",
    "2006-01-02 15:04:05.999Z07:00", "2006-01-02 15:04:05.999999999",
    "2006-01-02 15:04:05.999999", "2006-01-02 15:04:05.999", "2006-01-02 15:04:05"]

/-- `parseTimeString`. -/
def parseTimeString (txt : TimeText) (s : String) : Except Err Time :=
  match layouts.findSome? fun layout => txt.parse layout s with
  | some t => .ok t
  | none => .error (.new ("unsupported format " ++ quote s))

/-- `parseTime`. -/
def parseTime (txt : TimeText) : TimeValue → Except Err Time
  | .time t => .ok t
  | .text s => parseTimeString txt s
  | .bytes s => parseTimeString txt s
  | .other type => .error (.new ("unsupported value " ++ type))

/-- A row of `berth_leases`. -/
structure Row where
  ns : String
  name : String
  holder : String
  ttlMS : Int
  acquiredAt : TimeValue
  renewedAt : TimeValue
  fencingToken : Int
  version : Int
  deriving DecidableEq, Repr

/-- An error of the driver; a MySQL error has a number. -/
structure DbErr where
  number : Option Nat
  msg : String
  deriving DecidableEq, Repr

def DbErr.toErr (e : DbErr) : Err := .new e.msg

/-! ## Statements and dialects -/

/-- What an insert does with a key that is there. -/
inductive OnDuplicate where
  | fail
  | skip
  deriving DecidableEq, Repr

/-- The columns an update sets. -/
structure RowArgs where
  holder : String
  ttlMS : Int
  acquiredAt : TimeValue
  renewedAt : TimeValue
  fencingToken : Int
  deriving DecidableEq, Repr

/-- An insert is at version 1, an update takes the row from `version` to
the next one. -/
inductive Statement where
  | insert (onDuplicate : OnDuplicate) (ns name : String) (args : RowArgs)
  | update (args : RowArgs) (ns name : String) (version : Int)
  deriving DecidableEq, Repr

inductive Query where
  | get (ns name : String)
  | list
  deriving DecidableEq, Repr

inductive Driver where
  | postgres
  | mysql
  | sqlite
  deriving DecidableEq, Repr

structure Dialect where
  insertSQL : String → String → RowArgs → Statement
  timeValue : Time → TimeValue
  duplicateKey : Option (DbErr → Bool)

/-- `isMySQLDuplicateKey`. -/
def isMySQLDuplicateKey (e : DbErr) : Bool := e.number == some 1062

/-- `sqlTimeValue`. -/
def sqlTimeValue (t : Time) : TimeValue := .time (truncate t microsecond)

/-- `sqliteTimeValue`. -/
def sqliteTimeValue (txt : TimeText) (t : Time) : TimeValue := .text (txt.format rfc3339Nano t)

/-- `dialectFor`. -/
def dialectFor (txt : TimeText) : Driver → Dialect
  | .postgres =>
    { insertSQL := .insert .skip, timeValue := sqlTimeValue, duplicateKey := none }
  | .mysql =>
    { insertSQL := .insert .fail, timeValue := sqlTimeValue
      duplicateKey := some isMySQLDuplicateKey }
  | .sqlite =>
    { insertSQL := .insert .skip, timeValue := sqliteTimeValue txt, duplicateKey := none }

/-! ## The store, over `database/sql` -/

/-- Rows as they are read, and the error that ended the reading. -/
structure Rows where
  rows : List Row
  err : Option DbErr

inductive SqlOp where
  | beginTx (readOnly : Bool)
  | query (q : Query)
  | exec (st : Statement)
  | commit
  | rollback

/-- An execution answers with the number of affected rows, which may not
be available. -/
def SqlOp.Res : SqlOp → Type
  | .beginTx _ => Except DbErr Unit
  | .query _ => Except DbErr Rows
  | .exec _ => Except DbErr (Except DbErr Nat)
  | .commit => Except DbErr Unit
  | .rollback => Unit

def SqlSig : Sig := ⟨SqlOp, SqlOp.Res⟩

namespace Tx

def begin (readOnly : Bool) : Prog SqlSig (Except DbErr Unit) :=
  Prog.perform (S := SqlSig) (.beginTx readOnly)

def query (q : Query) : Prog SqlSig (Except DbErr Rows) := Prog.perform (S := SqlSig) (.query q)

def exec (st : Statement) : Prog SqlSig (Except DbErr (Except DbErr Nat)) :=
  Prog.perform (S := SqlSig) (.exec st)

def commit : Prog SqlSig (Except DbErr Unit) := Prog.perform (S := SqlSig) .commit

def rollback : Prog SqlSig Unit := Prog.perform (S := SqlSig) .rollback

end Tx

namespace SqlStore

/-- `defer func() { _ = tx.Rollback() }()`. -/
def deferRollback {α : Type} (body : Prog SqlSig α) : Prog SqlSig α := do
  let r ← body
  Tx.rollback
  return r

/-- `recordUpdateArgs`. -/
def recordUpdateArgs (d : Dialect) (rec : Record) : RowArgs :=
  { holder := rec.holder
    ttlMS := milliseconds rec.ttl
    acquiredAt := d.timeValue rec.acquiredAt
    renewedAt := d.timeValue rec.renewedAt
    fencingToken := rec.fencingToken }

/-- `scanRecord`: a token that is no `int32` is not scanned. -/
def scanRecord (txt : TimeText) (row : Row) : Except Err Record := do
  if row.fencingToken < -maxInt32 - 1 ∨ maxInt32 < row.fencingToken then
    throw (.new "sql: Scan error on column index 6, name \"fencing_token\": value out of range")
  let acquiredAt ← (parseTime txt row.acquiredAt).mapError (.wrap "parse acquired_at")
  let renewedAt ← (parseTime txt row.renewedAt).mapError (.wrap "parse renewed_at")
  return { key := ⟨row.ns, row.name⟩
           holder := row.holder
           ttl := row.ttlMS * millisecond
           acquiredAt := acquiredAt
           renewedAt := renewedAt
           fencingToken := row.fencingToken
           version := row.version }

/-- `Store.getTx`. -/
def getTx (txt : TimeText) (key : Key) : Prog SqlSig (Except Err Record) := do
  let fail (e : Err) : Except Err Record := .error (.wrap ("sql store: get " ++ key.text) e)
  match ← Tx.query (.get key.ns key.name) with
  | .error e => return fail e.toErr
  | .ok ⟨[], some e⟩ => return fail e.toErr
  | .ok ⟨[], none⟩ => return .error errNotFound
  | .ok ⟨row :: _, _⟩ =>
    match scanRecord txt row with
    | .error e => return fail e
    | .ok rec => return .ok rec

/-- `Store.Get`. -/
def get (txt : TimeText) (key : Key) : Prog SqlSig (Except Err Record) := do
  match ← Tx.begin true with
  | .error e => return .error (.wrap "sql store: begin get" e.toErr)
  | .ok () => deferRollback do
    match ← getTx txt key with
    | .error e => return .error e
    | .ok rec =>
      match ← Tx.commit with
      | .error e => return .error (.wrap ("sql store: commit get " ++ key.text) e.toErr)
      | .ok () => return .ok rec

/-- `Store.List`. -/
def list (txt : TimeText) : Prog SqlSig (Except Err (List Record)) := do
  match ← Tx.begin true with
  | .error e => return .error (.wrap "sql store: begin list" e.toErr)
  | .ok () => deferRollback do
    match ← Tx.query .list with
    | .error e => return .error (.wrap "sql store: list" e.toErr)
    | .ok rows =>
      match rows.rows.mapM (scanRecord txt) with
      | .error e => return .error (.wrap "sql store: scan list" e)
      | .ok out =>
        match rows.err with
        | some e => return .error (.wrap "sql store: list rows" e.toErr)
        | none =>
          match ← Tx.commit with
          | .error e => return .error (.wrap "sql store: commit list" e.toErr)
          | .ok () => return .ok out

/-- The end of `Store.Put`: one affected row is the whole story. -/
def settle (rec : Record) : Except DbErr Nat → Prog SqlSig (Except Err Unit)
  | .error e => return .error (.wrap ("sql store: rows affected " ++ rec.key.text) e.toErr)
  | .ok affected => do
    if affected ≠ 1 then return .error errConflict
    else
      match ← Tx.commit with
      | .error e => return .error (.wrap ("sql store: commit put " ++ rec.key.text) e.toErr)
      | .ok () => return .ok ()

/-- `Store.Put` inside its transaction. -/
def putTx (d : Dialect) (expectedVersion : Int) (rec : Record) :
    Prog SqlSig (Except Err Unit) :=
  if expectedVersion = 0 then do
    match ← Tx.exec (d.insertSQL rec.key.ns rec.key.name (recordUpdateArgs d rec)) with
    | .error e =>
      if d.duplicateKey.any (· e) then return .error errConflict
      else return .error (.wrap ("sql store: insert " ++ rec.key.text) e.toErr)
    | .ok res => settle rec res
  else do
    match ← Tx.exec
        (.update (recordUpdateArgs d rec) rec.key.ns rec.key.name expectedVersion) with
    | .error e => return .error (.wrap ("sql store: update " ++ rec.key.text) e.toErr)
    | .ok res => settle rec res

/-- `Store.Put`, on a record that is not nil. -/
def put (d : Dialect) (expectedVersion : Int) (rec : Record) : Prog SqlSig (Except Err Unit) := do
  match ← Tx.begin false with
  | .error e => return .error (.wrap "sql store: begin put" e.toErr)
  | .ok () => deferRollback (putTx d expectedVersion rec)

end SqlStore

/-! ## Lemmas -/

/-- Truncation is the floor a `MicroTime` takes: the zero time is a whole
second. -/
theorem truncate_microsecond (t : Time) : truncate t microsecond = microTime t := by
  have h : ∀ x : Int, x - (x - -62135596800 * 1000000000) % 1000 = x / 1000 * 1000 := by
    intro x
    omega
  exact h t

end Berth.Lease
