/-
Berth.Acquire.Disk — the state directory as files
(`internal/acquire/state.go`).

`Acquire/Fleet.lean` takes a write of a state file as one step. Here it is
what the code does: a temporary file is made, filled, given its mode,
closed and renamed, each a step of its own that may fail, and a process
may stop for good between any two of them. A failed write may leave part
of its data in the file. `writeFileAtomic` and `copyFile` differ in their
last step only: a failed rename leaves the temporary file of the first
behind.

`onDisk` is the helpers' machine with its file effects expanded. The
health marker's time is that of the write to its file, before the rename.
A rename either happens or fails; reading a file is one step.
-/
import Berth.Acquire.Fleet
import Berth.Files.Directory
import Berth.Interleave.Refine

namespace Berth.Acquire

open Berth.Files Berth.Interleave Berth.Lease

/-! ## Effects -/

/-- `holderPath`, `tokenPath` and `healthyPath`, below the directory. -/
def StateFile.name : StateFile → String
  | .holder => "holder"
  | .token => "token"
  | .healthy => "healthy"

/-- `CheckPath`, below the directory. -/
def checkName : String := "check"

/-- The names that files get for good. -/
def Published (name : String) : Prop := name ∈ ["holder", "token", "healthy", checkName]

instance (name : String) : Decidable (Published name) := inferInstanceAs (Decidable (_ ∈ _))

/-- The helper's effects that are more than one step here. -/
def HelperOp.onDisk : HelperOp → Bool
  | .readFile _ | .writeFileAtomic _ _ | .remove _ | .installCheckBinary => true
  | _ => false

/-- An open temporary file. -/
structure Temp where
  name : String
  file : Nat
  deriving DecidableEq, Repr

inductive DiskOp where
  | createTemp (pattern : String)
  | write (file : Nat) (data : String)
  | chmod (file mode : Nat)
  | close (file : Nat)
  | rename (tmp name : String)
  | remove (name : String)
  | readFile (name : String)
  /-- `os.Executable` -/
  | executable
  /-- `os.Open` of the executable -/
  | openExecutable (path : String)
  /-- `io.Copy` from the executable -/
  | copy (file : Nat)
  | helper (o : HelperOp) (h : o.onDisk = false)

def DiskOp.Res : DiskOp → Type
  | .createTemp _ => Except Err Temp
  | .write _ _ | .chmod _ _ | .close _ | .rename _ _ | .openExecutable _ | .copy _ =>
    Except Err Unit
  | .remove _ => Except SysErr Unit
  | .readFile _ | .executable => Except Err String
  | .helper o _ => o.Res

abbrev DiskSig : Sig := ⟨DiskOp, DiskOp.Res⟩

/-- The program of one effect. -/
def onDiskEffect (o : DiskOp) : Prog DiskSig o.Res := Prog.perform (S := DiskSig) o

/-! ## Writing -/

/-- The end of a failed write: the temporary file is removed. -/
def discard (tmp : Temp) (e : Err) : Prog DiskSig (Except Err Unit) := do
  let _ ← onDiskEffect (.remove tmp.name)
  return .error e

/-- Close and discard. -/
def closeAndDiscard (tmp : Temp) (e : Err) : Prog DiskSig (Except Err Unit) := do
  let _ ← onDiskEffect (.close tmp.file)
  discard tmp e

/-- What `writeFileAtomic` and `copyFile` do between making the temporary
file and renaming it; `say` is what they make of an error of a step. -/
def complete (tmp : Temp) (fill : DiskOp) (filled : fill.Res → Except Err Unit) (mode : Nat)
    (say : String → Err → Err) : Prog DiskSig (Except Err Unit) := do
  match filled (← onDiskEffect fill) with
  | .error e => closeAndDiscard tmp (say "copy" e)
  | .ok () =>
    match ← onDiskEffect (.chmod tmp.file mode) with
    | .error e => closeAndDiscard tmp (say "chmod" e)
    | .ok () =>
      match ← onDiskEffect (.close tmp.file) with
      | .error e => discard tmp (say "close" e)
      | .ok () => return .ok ()

/-- `writeFileAtomic`, with the mode of the state files. -/
def writeFileAtomicOnDisk (f : StateFile) (data : String) : Prog DiskSig (Except Err Unit) := do
  match ← onDiskEffect (.createTemp ".tmp-") with
  | .error e => return .error e
  | .ok tmp =>
    match ← complete tmp (.write tmp.file data) id 0o644 (fun _ e => e) with
    | .error e => return .error e
    | .ok () => onDiskEffect (.rename tmp.name f.name)

/-- `copyFile`, from the executable to `<dir>/check`. -/
def copyFile (src dir : String) : Prog DiskSig (Except Err Unit) := do
  match ← onDiskEffect (.openExecutable src) with
  | .error e => return .error (.wrap ("open " ++ src) e)
  | .ok () =>
    match ← onDiskEffect (.createTemp ".check-") with
    | .error e => return .error (.wrap ("create temp in " ++ dir) e)
    | .ok tmp =>
      match ← complete tmp (.copy tmp.file) id 0o755 .wrap with
      | .error e => return .error e
      | .ok () =>
        match ← onDiskEffect (.rename tmp.name checkName) with
        | .error e => discard tmp (.wrap "rename" e)
        | .ok () => return .ok ()

/-- `State.InstallCheckBinary`. -/
def installCheckBinaryOnDisk (dir : String) : Prog DiskSig (Except Err Unit) := do
  match ← onDiskEffect .executable with
  | .error e => return .error (.wrap "locate self" e)
  | .ok self =>
    match ← onDiskEffect (.helper .mkdirAll rfl) with
    | .error e => return .error (.wrap "create state dir" e)
    | .ok () => copyFile self dir

/-- What each of the helper's effects is on disk. -/
def diskExpansion (cfg : Config) : (o : HelperOp) → Prog DiskSig o.Res
  | .writeFileAtomic f data => writeFileAtomicOnDisk f data
  | .installCheckBinary => installCheckBinaryOnDisk cfg.stateDir
  | .readFile f => onDiskEffect (.readFile f.name)
  | .remove f => onDiskEffect (.remove f.name)
  | .now => onDiskEffect (.helper .now rfl)
  | .mkdirAll => onDiskEffect (.helper .mkdirAll rfl)
  | .findProcesses => onDiskEffect (.helper .findProcesses rfl)
  | .kill pid sig => onDiskEffect (.helper (.kill pid sig) rfl)
  | .ctxErr => onDiskEffect (.helper .ctxErr rfl)
  | .rpcCtxErr deadline => onDiskEffect (.helper (.rpcCtxErr deadline) rfl)
  | .post key endpoint => onDiskEffect (.helper (.post key endpoint) rfl)
  | .await id => onDiskEffect (.helper (.await id) rfl)
  | .select expiry => onDiskEffect (.helper (.select expiry) rfl)
  | .sleep d => onDiskEffect (.helper (.sleep d) rfl)
  | .assign rt => onDiskEffect (.helper (.assign rt) rfl)

/-! ## State -/

/-- What went wrong with a temporary file: it could not be renamed, or not
removed. -/
inductive Fault (ι : Type) where
  | rename (pod : ι) (tmp name : String)
  | remove (pod : ι) (name : String)
  deriving DecidableEq, Repr

/-- The server and all Pods, whose state directories are on disk; the
directories of the site itself are not used. `faults` is a ghost. -/
structure Disks (ι : Type) (cfg : Server.Config) where
  site : Site ι cfg
  disks : ι → Directory
  faults : List (Fault ι)

variable {ι : Type} [DecidableEq ι] {cfg : Server.Config}

/-- Replace the disk of Pod `j`. -/
def Disks.setDisk (s : Disks ι cfg) (j : ι) (d : Directory) : Disks ι cfg :=
  { s with disks := Function.update s.disks j d }

def Disks.fault (s : Disks ι cfg) (x : Fault ι) : Disks ι cfg := { s with faults := x :: s.faults }

/-- The scheduler's decisions. -/
inductive DiskChoice where
  | ok
  | fail (e : Err)
  /-- a write that fails after so many characters -/
  | short (n : Nat) (e : Err)
  /-- what `os.CreateTemp` adds to the pattern -/
  | suffix (s : String)
  | helper (ch : Choice)

/-- Write to a file, which gets `part` of the data. -/
def appendTo (s : Disks ι cfg) (j : ι) (file : Nat) (part data : String) : Disks ι cfg :=
  s.setDisk j ((s.disks j).modify file fun f =>
    { f with content := f.content ++ part, mtime := s.site.clock, due := f.due ++ data })

/-- All of the data is written, or its beginning, with an error. -/
def writeTo (ch : DiskChoice) (s : Disks ι cfg) (j : ι) (file : Nat) (data : String) :
    Option (Except Err Unit × Disks ι cfg) :=
  match ch with
  | .ok => some (.ok (), appendTo s j file data data)
  | .short n e => some (.error e, appendTo s j file (String.ofList (data.toList.take n)) data)
  | _ => none

/-- One effect of a live process in Pod `c.pod`; `exe` is the content of the
helper's executable. -/
def execDisk (F : Fleet ι) (exe : String) (i : Nat) (ch : DiskChoice) :
    (o : DiskOp) → Start ι → Disks ι cfg → Option (o.Res × Disks ι cfg)
  | .createTemp pattern, c, s =>
    match ch with
    | .suffix x =>
      if h : (s.disks c.pod).names (pattern ++ x) = none then
        some (.ok ⟨pattern ++ x, (s.disks c.pod).files.length⟩,
          s.setDisk c.pod ((s.disks c.pod).create (pattern ++ x)
            ⟨"", 0o600, s.site.clock, some i, ""⟩ h))
      else none
    | .fail e => some (.error e, s)
    | _ => none
  | .write file data, c, s => writeTo ch s c.pod file data
  | .copy file, c, s => writeTo ch s c.pod file exe
  | .chmod file mode, c, s =>
    match ch with
    | .ok =>
      some (.ok (), s.setDisk c.pod ((s.disks c.pod).modify file fun f => { f with mode := mode }))
    | .fail e => some (.error e, s)
    | _ => none
  | .close _, _, s =>
    match ch with
    | .ok => some (.ok (), s)
    | .fail e => some (.error e, s)
    | _ => none
  | .rename tmp name, c, s =>
    match ch with
    | .ok =>
      match h : (s.disks c.pod).names tmp with
      | some n => some (.ok (), s.setDisk c.pod ((s.disks c.pod).rename tmp name n h))
      | none => some (.error (.new "no such file or directory"), s)
    | .fail e => some (.error e, s.fault (.rename c.pod tmp name))
    | _ => none
  | .remove name, c, s =>
    match ch with
    | .ok =>
      match (s.disks c.pod).names name with
      | some _ => some (.ok (), s.setDisk c.pod ((s.disks c.pod).unlink name))
      | none => some (.error .absent, s)
    | .fail e => some (.error (.other e), s.fault (.remove c.pod name))
    | _ => none
  | .readFile name, c, s =>
    match ch with
    | .ok =>
      match (s.disks c.pod).file? name with
      | some f => some (.ok f.content, s)
      | none => some (.error (.new "file does not exist"), s)
    | .fail e => some (.error e, s)
    | _ => none
  | .executable, _, s =>
    match ch with
    | .ok => some (.ok "/berth-acquire", s)
    | .fail e => some (.error e, s)
    | _ => none
  | .openExecutable _, _, s =>
    match ch with
    | .ok => some (.ok (), s)
    | .fail e => some (.error e, s)
    | _ => none
  | .helper o _, c, s =>
    match ch with
    | .helper ch => (execLive F ch o c s.site).map fun x => (x.1, { s with site := x.2 })
    | _ => none

def execOnDisk (F : Fleet ι) (exe : String) (i : Nat) (ch : DiskChoice) (o : DiskOp) (c : Start ι)
    (s : Disks ι cfg) : Option (o.Res × Start ι × Disks ι cfg) :=
  if alive c i s.site then (execDisk F exe i ch o c s).map fun x => (x.1, c, x.2) else none

def enterOnDisk (n : Nat) (c : Start ι) (s : Disks ι cfg) : Option (Start ι × Disks ι cfg) :=
  (enter n c s.site).map fun x => (x.1, { s with site := x.2 })

/-- Nobody but the helpers changes the directories. -/
def envOnDisk {F : Fleet ι} (e : Env F) (s : Disks ι cfg) : Option (Disks ι cfg) :=
  match e with
  | .disk _ _ => none
  | e => (envStep e s.site).map fun site => { s with site := site }

/-- The helpers with their state directories on disk. -/
def onDisk (F : Fleet ι) (cfg : Server.Config) (exe : String) :
    Implementation (machine F cfg) DiskSig where
  State := Disks ι cfg
  Choice := DiskChoice
  Env := Env F
  expansion := fun c => diskExpansion (F.config c.pod)
  start := enterOnDisk
  exec := execOnDisk F exe
  env := envOnDisk

/-- Nothing has been started yet; the directories hold anything. -/
def Disks.new (cfg : Server.Config) (t : Time) (disks : ι → Directory) : Disks ι cfg :=
  { site := Site.new cfg t fun _ => {}, disks := disks, faults := [] }

abbrev freshOnDisk (F : Fleet ι) (cfg : Server.Config) (exe : String) (t : Time)
    (disks : ι → Directory) : Pool (onDisk F cfg exe).machine := Pool.empty (Disks.new cfg t disks)

end Berth.Acquire
