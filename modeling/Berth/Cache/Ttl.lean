/-
Berth.Cache.Ttl — a value behind a mutex that is fetched again when it is
too old.

Any number of callers ask for the value. A caller takes the lock, and
either finds a value that was stamped less than `ttl` ago or fetches one
while it holds the lock, so that the others wait for its answer. An answer
that is not accepted leaves the old value, with its old stamp, in place.

Where answers come from is not part of the cache: there is a world, which
changes by steps of its own, and an answer is a look at it at one moment.
What is left of a fetch after that moment is time that passes before the
caller's next step.

The log of fetches and what a caller remembers of its beginning are ghosts.
A fetch has a stamp once its value is in the cache; the stamp is a reading
of the clock after the end.
-/
import Berth.Interleave.Pool

namespace Berth.Cache

open Berth.Interleave

/-- What is cached, and where it comes from. -/
structure Design where
  World : Type
  /-- A step of the world. -/
  Event : Type
  /-- What is open about a look at the world. -/
  Choice : Type
  Answer : Type
  Value : Type
  ttl : Int
  zero : Value
  accept : Answer → Option Value
  evolve : Event → World → Option World
  look : Choice → World → Answer

variable (D : Design)

/-! ## Callers -/

inductive Op where
  | lock
  | unlock
  | now
  | cached
  | store (v : D.Value) (stamp : Int)
  /-- A fetch begins. -/
  | ask
  /-- It ends. -/
  | answer

variable {D} in
def Op.Res : Op D → Type
  | .lock | .unlock | .store _ _ | .ask => Unit
  | .now => Int
  | .cached => Option (D.Value × Int)
  | .answer => D.Answer

abbrev sig : Sig := ⟨Op D, Op.Res⟩

section Callers

variable {D}

abbrev perform (o : Op D) : Prog (sig D) o.Res := Prog.perform (S := sig D) o

/-- What becomes of an answer. -/
def settle (old : D.Value) (a : D.Answer) : Prog (sig D) D.Value :=
  match D.accept a with
  | some v => do
    let stamp : Int ← perform .now
    perform (.store v stamp)
    perform .unlock
    return v
  | none => do
    perform .unlock
    return old

/-- Fetch, and return what is then in the cache. -/
def refresh (old : D.Value) : Prog (sig D) D.Value := do
  perform .ask
  settle old (← perform .answer)

/-- A value with its stamp is returned while it is fresh. -/
def consult (v : D.Value) (stamp now : Int) : Prog (sig D) D.Value :=
  if now - stamp < D.ttl then do
    perform .unlock
    return v
  else refresh v

/-- The value and its stamp, or nothing before the first fetch. -/
def lookUp : Option (D.Value × Int) → Prog (sig D) D.Value
  | some (v, stamp) => do
    consult v stamp (← perform .now)
  | none => refresh D.zero

/-- One call. -/
def get : Prog (sig D) D.Value := do
  perform .lock
  lookUp (← perform .cached)

end Callers

/-! ## The machine -/

/-- A fetch that has ended, and the world it saw. -/
structure Fetch where
  start : Int
  finish : Int
  world : D.World
  answer : D.Answer
  stamp : Option Int

structure State where
  world : D.World
  clock : Int
  owner : Option Nat
  cached : Option (D.Value × Int)
  /-- When the fetch under way began. -/
  asked : Option Int
  /-- The fetches that have ended, newest first. -/
  log : List (Fetch D)

/-- The bookkeeping of a caller: its first reading of the clock, and the
log when it began. -/
structure Caller where
  reading : Option Int
  before : List (Fetch D)

variable {D}

/-- Stamp the latest fetch. -/
def stampLatest (stamp : Int) : List (Fetch D) → List (Fetch D)
  | [] => []
  | f :: fs => { f with stamp := some stamp } :: fs

/-- What happens without a caller. -/
inductive Env (D : Design) where
  | tick (d : Nat)
  | world (e : D.Event)

def exec (i : Nat) (ch : D.Choice) :
    (o : Op D) → Caller D → State D → Option (o.Res × Caller D × State D)
  | .lock, l, s => if s.owner = none then some ((), l, { s with owner := some i }) else none
  | .unlock, l, s => some ((), l, { s with owner := none })
  | .now, l, s => some (s.clock, { l with reading := some (l.reading.getD s.clock) }, s)
  | .cached, l, s => some (s.cached, l, s)
  | .store v stamp, l, s =>
    some ((), l, { s with cached := some (v, stamp), log := stampLatest stamp s.log })
  | .ask, l, s => some ((), l, { s with asked := some s.clock })
  | .answer, l, s =>
    match s.asked with
    | none => none
    | some start =>
      let a := D.look ch s.world
      some (a, l, { s with asked := none, log := ⟨start, s.clock, s.world, a, none⟩ :: s.log })

def env : Env D → State D → Option (State D)
  | .tick d, s => some { s with clock := s.clock + d }
  | .world e, s => (D.evolve e s.world).map fun w => { s with world := w }

/-- Any number of calls. -/
def machine (D : Design) : Machine (sig D) where
  Call := Unit
  Out := D.Value
  Loc := Caller D
  State := State D
  Choice := D.Choice
  Env := Env D
  prog := fun _ => get
  start := fun _ _ s => some (⟨none, s.log⟩, s)
  exec := exec
  env := env

end Berth.Cache
