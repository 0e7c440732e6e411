/-
Berth.Broker.Disk — brokers over the volume they share with the operator
(`cmd/berth-oidc-broker/main.go`).

Any number of broker processes run one after the other or side by side (a
container that was restarted, a rollout that overlaps), each its loop of
`Broker/Loop.lean`. Every effect on the volume is a step of its own and may
fail, and a process may stop for good between any two of them. A failed
write may leave part of the token in the temporary file.

A file is known by its whole path. What is open is the bookkeeping of a
process; what the provider issued and what was renamed into place are
ghosts.
-/
import Berth.Broker.Loop
import Berth.Files.Directory
import Berth.Interleave.Pool

namespace Berth.Broker

open Berth.Files Berth.Interleave Berth.Lease

/-! ## Temporary names -/

/-- `joinPath` of package `os`. -/
def joinPath (dir name : String) : String :=
  if dir.toList.getLast? = some '/' then dir ++ name else dir ++ "/" ++ name

/-- The name `os.CreateTemp` tries, for a random number. -/
def tempName (dir pattern : String) (n : Nat) : String := joinPath dir (pattern ++ Nat.repr n)

/-- What stands behind the last slash. -/
def lastElement (path : String) : List Char := (path.toList.reverse.takeWhile (· ≠ '/')).reverse

/-- A path that the broker might choose for a temporary file. -/
def TempLike (path : String) : Prop := ".token-".toList <+: lastElement path

instance (path : String) : Decidable (TempLike path) := inferInstanceAs (Decidable (_ <+: _))

/-! ## The volume -/

structure Volume where
  disk : Directory
  clock : Time
  /-- The access tokens that the provider has issued. -/
  issued : List String
  /-- What has been renamed into place, newest first. -/
  published : List String

/-- The scheduler's decisions. -/
inductive BrokerChoice where
  | ok
  | fail (e : Err)
  /-- a write that fails after so many characters -/
  | short (n : Nat) (e : Err)
  /-- the number in a temporary name -/
  | random (n : Nat)
  /-- the provider's answer -/
  | answer (t : Token)
  /-- what a context says, or whether a sleep was completed -/
  | flag (b : Bool)

/-- Write to the open file, which gets `part` of the text. -/
def appendTo (s : Volume) (file : Nat) (part text : String) : Volume :=
  { s with disk := s.disk.modify file fun f =>
      { f with content := f.content ++ part, mtime := s.clock, due := f.due ++ text } }

/-- One effect of process `i`; the bookkeeping is the file it has open. -/
def exec (i : Nat) (ch : BrokerChoice) :
    (o : BrokerOp) → Option Nat → Volume → Option (o.Res × Option Nat × Volume)
  | .ctxErr, l, s =>
    match ch with
    | .flag b => some (b, l, s)
    | _ => none
  | .token _, l, s =>
    match ch with
    | .answer t => some (.ok t, l, { s with issued := t.accessToken :: s.issued })
    | .fail e => some (.error e, l, s)
    | _ => none
  | .createTemp dir pattern, l, s =>
    match ch with
    | .random n =>
      if h : s.disk.names (tempName dir pattern n) = none then
        some (.ok (tempName dir pattern n), some s.disk.files.length,
          { s with disk :=
              s.disk.create (tempName dir pattern n) ⟨"", 0o600, s.clock, some i, ""⟩ h })
      else none
    | .fail e => some (.error e, l, s)
    | _ => none
  | .writeString _ text, l, s =>
    match l, ch with
    | some file, .ok => some (.ok (), l, appendTo s file text text)
    | some file, .short n e =>
      some (.error e, l, appendTo s file (String.ofList (text.toList.take n)) text)
    | _, _ => none
  | .chmod _ mode, l, s =>
    match l, ch with
    | some file, .ok =>
      some (.ok (), l, { s with disk := s.disk.modify file fun f => { f with mode := mode } })
    | some _, .fail e => some (.error e, l, s)
    | _, _ => none
  | .close _, _, s =>
    match ch with
    | .ok => some (.ok (), none, s)
    | .fail e => some (.error e, none, s)
    | _ => none
  | .rename tmp path, l, s =>
    match ch with
    | .ok =>
      match h : s.disk.names tmp with
      | some n =>
        some (.ok (), l, { s with
          disk := s.disk.rename tmp path n h
          published := ((s.disk.file? tmp).map File.content).toList ++ s.published })
      | none => some (.error (.new "no such file or directory"), l, s)
    | .fail e => some (.error e, l, s)
    | _ => none
  | .remove tmp, l, s =>
    match ch with
    | .ok =>
      match s.disk.names tmp with
      | some _ => some (.ok (), l, { s with disk := s.disk.unlink tmp })
      | none => some (.error (.new "no such file or directory"), l, s)
    | .fail e => some (.error e, l, s)
    | _ => none
  | .now, l, s => some (s.clock, l, s)
  | .sleep _, l, s =>
    match ch with
    | .flag b => some (b, l, s)
    | _ => none

/-- Any number of brokers with one configuration; a call is the number of
turns a process gets to. -/
def machine (lc : LoopConfig) : Machine BrokerSig where
  Call := Nat
  Out := Option Nat
  Loc := Option Nat
  State := Volume
  Choice := BrokerChoice
  Env := Nat
  prog := runLoop lc
  start := fun _ _ s => some (none, s)
  exec := exec
  env := fun d s => some { s with clock := s.clock + d }

/-- What is in the token file. -/
def tokenText (path : String) (d : Directory) : Option String := (d.file? path).map File.content

/-- A volume as it is found. A token file that is there already counts as
published; the provider has issued nothing yet. -/
def Volume.found (path : String) (d : Directory) (now : Time) : Volume where
  disk := d
  clock := now
  issued := []
  published := (tokenText path d).toList

abbrev freshBrokers (lc : LoopConfig) (d : Directory) (now : Time) : Pool (machine lc) :=
  Pool.empty (Volume.found lc.outputPath d now)

end Berth.Broker
