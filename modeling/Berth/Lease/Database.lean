/-
Berth.Lease.Database — the database under the SQL store, alone.

The committed rows, and the rows of the open transaction if there is one.
Statements do as they say: an insert looks for the primary key
`(namespace, name)`, an update changes the rows its predicate picks, a
query returns rows in any order, and each execution reports how many rows
it affected.

An `Engine` is what may differ from one database to another, with what is
assumed of it: a time column gives back what the store writes to it, the
text of an instant reads back, and MySQL numbers a duplicate key 1062. A
MySQL update may or may not count the rows that it leaves as they are.
-/
import Berth.Interleave.Serve
import Berth.Lease.SqlStore

namespace Berth.Lease

open Berth.Interleave

/-- A database of the given kind. -/
structure Engine (driver : Driver) where
  text : TimeText
  /-- What a time column keeps of a value. -/
  keep : TimeValue → TimeValue
  duplicate : DbErr
  failed : DbErr
  /-- Whether rows that stay the same count as affected. -/
  foundRows : Bool
  text_reads : ∀ t, text.parse rfc3339Nano (text.format rfc3339Nano t) = some t
  column_keeps : ∀ t,
    keep ((dialectFor text driver).timeValue t) = (dialectFor text driver).timeValue t
  duplicate_number : duplicate.number = some 1062

def Row.isAt (row : Row) (ns name : String) : Bool := row.ns == ns && row.name == name

structure Transaction where
  readOnly : Bool
  rows : List Row

structure Database where
  rows : List Row
  tx : Option Transaction

/-- After the migration. -/
def Database.new : Database := ⟨[], none⟩

/-- The rows a statement sees. -/
def Database.view (s : Database) : List Row :=
  match s.tx with
  | none => s.rows
  | some tx => tx.rows

def Query.select (rows : List Row) : Query → List Row
  | .get ns name => rows.filter fun row => row.isAt ns name
  | .list => rows

namespace Engine

variable {driver : Driver} (e : Engine driver)

def dialect : Dialect := dialectFor e.text driver

def row (ns name : String) (args : RowArgs) (version : Int) : Row :=
  { ns := ns, name := name, holder := args.holder, ttlMS := args.ttlMS
    acquiredAt := e.keep args.acquiredAt, renewedAt := e.keep args.renewedAt
    fencingToken := args.fencingToken, version := version }

/-- The rows affected and the rows after a statement. -/
def run (rows : List Row) : Statement → Except DbErr (Nat × List Row)
  | .insert onDuplicate ns name args =>
    if rows.any fun row => row.isAt ns name then
      match onDuplicate with
      | .fail => .error e.duplicate
      | .skip => .ok (0, rows)
    else .ok (1, rows ++ [e.row ns name args 1])
  | .update args ns name version =>
    let hit (row : Row) : Bool := row.isAt ns name && row.version == version
    let new (row : Row) : Row := e.row row.ns row.name args (row.version + 1)
    .ok ((rows.filter fun row => hit row && (e.foundRows || new row != row)).length,
      rows.map fun row => if hit row then new row else row)

/-- A database that nobody else uses. -/
def serve : Handler SqlSig Database
  | .beginTx readOnly, s, r, s' => r = .ok () ∧ s' = { s with tx := some ⟨readOnly, s.rows⟩ }
  | .query q, s, r, s' => (∃ rows, rows.Perm (q.select s.view) ∧ r = .ok ⟨rows, none⟩) ∧ s' = s
  | .exec st, s, r, s' =>
    match s.tx with
    | none => r = .error e.failed ∧ s' = s
    | some tx =>
      if tx.readOnly then r = .error e.failed ∧ s' = s
      else
        match e.run tx.rows st with
        | .error err => r = .error err ∧ s' = s
        | .ok (n, rows) => r = .ok (.ok n) ∧ s' = { s with tx := some { tx with rows := rows } }
  | .commit, s, r, s' =>
    match s.tx with
    | none => r = .error e.failed ∧ s' = s
    | some tx => r = .ok () ∧ s' = ⟨tx.rows, none⟩
  | .rollback, s, r, s' => r = () ∧ s' = { s with tx := none }

end Engine

/-! ## Keys -/

/-- The row that a statement writes. -/
def Statement.key : Statement → Key
  | .insert _ ns name _ => ⟨ns, name⟩
  | .update _ ns name _ => ⟨ns, name⟩

/-- What the row looks like once it is written. -/
def Statement.row {driver : Driver} (e : Engine driver) : Statement → Row
  | .insert _ ns name args => e.row ns name args 1
  | .update args ns name version => e.row ns name args (version + 1)

def Row.key (row : Row) : Key := ⟨row.ns, row.name⟩

namespace Sql

def rowAt (rows : List Row) (key : Key) : Option Row := rows.find? fun row => row.key = key

/-- `PRIMARY KEY (namespace, name)`. -/
def Distinct (rows : List Row) : Prop := rows.Pairwise fun row row' => row.key ≠ row'.key

end Sql

end Berth.Lease
