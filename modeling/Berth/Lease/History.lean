/-
Berth.Lease.History — the lease as an abstract object: what a successful
write may do to one key, and histories of such writes.

`Transition op t old new` lists the six ways in which a stored record may
change: an acquisition creates the record, extends it in place or
reclaims it under the next token; a renewal extends it; a release and a
sweep tombstone it. `t` is the clock reading the writer decided with.
Nothing here mentions reads, retries or interleavings: that every
successful write of the real programs, in every interleaving, is one of
these transitions is `Server/ManagerTheorems.lean`.

A `History` is a list of writes, newest first, in which every write is a
transition from the record the older writes left. `storedAt ws k` is the
record of `k` after the writes `ws`, so the suffixes of a history are the
instants of the store's life.
-/
import Berth.Lease.Manager
import Mathlib.Data.List.Infix

namespace Berth.Lease

/-- The operations that may write, with their arguments. -/
inductive LeaseOp where
  | acquire (key : Key) (holder : String) (ttl : Duration)
  | renew (key : Key) (holder : String) (token : Int) (ttl : Duration)
  | release (key : Key) (holder : String) (token : Int)
  | collect (grace : Duration)
  deriving DecidableEq, Repr

/-- The key an operation is about; a sweep is about all of them. -/
def LeaseOp.key? : LeaseOp → Option Key
  | .acquire key _ _ => some key
  | .renew key _ _ _ => some key
  | .release key _ _ => some key
  | .collect _ => none

/-- The holder an operation acts for. -/
def LeaseOp.holder? : LeaseOp → Option String
  | .acquire _ holder _ => some holder
  | .renew _ holder _ _ => some holder
  | .release _ holder _ => some holder
  | .collect _ => none

/-- The TTL an operation asks for; one that ends a tenure asks for none. -/
def LeaseOp.ttl? : LeaseOp → Option Duration
  | .acquire _ _ ttl => some ttl
  | .renew _ _ _ ttl => some ttl
  | .release _ _ _ => none
  | .collect _ => none

/-- How a stored record may change, at clock reading `t`. -/
inductive Transition : LeaseOp → Time → Option Record → Record → Prop where
  | create {k h ttl t} (hne : h ≠ "") (hpos : 0 < ttl) :
      Transition (.acquire k h ttl) t none
        { key := k, holder := h, ttl := ttl, acquiredAt := t, renewedAt := t
          fencingToken := 1, version := 1 }
  | extend {k h ttl t} {r : Record} (hne : h ≠ "") (hpos : 0 < ttl) (hk : r.key = k)
      (hh : r.holder = h) (hlive : t ≤ r.expiresAt) :
      Transition (.acquire k h ttl) t (some r)
        { r with ttl := ttl, renewedAt := t, version := r.version + 1 }
  | reclaim {k h ttl t} {r : Record} (hne : h ≠ "") (hpos : 0 < ttl) (hk : r.key = k)
      (hfree : r.holder = "" ∨ r.expiresAt < t) (hmax : r.fencingToken ≠ maxInt32) :
      Transition (.acquire k h ttl) t (some r)
        { key := k, holder := h, ttl := ttl, acquiredAt := t, renewedAt := t
          fencingToken := r.fencingToken + 1, version := r.version + 1 }
  | renew {k h tok ttl t} {r : Record} (hne : h ≠ "") (hpos : 0 < ttl) (hk : r.key = k)
      (hh : r.holder = h) (htok : r.fencingToken = tok) (hlive : t ≤ r.expiresAt) :
      Transition (.renew k h tok ttl) t (some r)
        { r with ttl := ttl, renewedAt := t, version := r.version + 1 }
  | release {k h tok t} {r : Record} (hne : h ≠ "") (hk : r.key = k)
      (hh : r.holder = h) (htok : r.fencingToken = tok) :
      Transition (.release k h tok) t (some r)
        { Manager.tombstoneFrom r t with version := r.version + 1 }
  | sweep {grace t} {r : Record} (hpos : 0 < grace) (hne : r.holder ≠ "")
      (hold : r.expiresAt + grace ≤ t) :
      Transition (.collect grace) t (some r)
        { Manager.tombstoneFrom r t with version := r.version + 1 }

/-- One successful write: the thread and call that made it, the last clock
reading of that call, the instant it landed, and what it replaced. `op` is
what the call asks for, if it asks for anything. -/
structure Write (γ : Type) where
  tid : Nat
  call : γ
  op : Option LeaseOp
  reading : Option Time
  landed : Time
  old : Option Record
  new : Record

namespace Write

variable {γ : Type}

/-- The write is a transition at the writer's own clock reading. -/
def Legit (x : Write γ) : Prop :=
  ∃ op t, x.op = some op ∧ x.reading = some t ∧ Transition op t x.old x.new

/-- The write keeps `h`'s tenure under token `t`: held before, held after. -/
def Continues (x : Write γ) (h : String) (t : Int) : Prop :=
  HeldBy h t x.old ∧ HeldBy h t (some x.new)

/-- There was no tenure of the new holder to continue: the key had no
record, a tombstone or another holder, or the record had expired at the
writer's reading. -/
def Anew (x : Write γ) : Prop :=
  ∀ r t, x.old = some r → x.reading = some t → r.holder ≠ x.new.holder ∨ r.expiresAt < t

/-- The write ends `h`'s tenure under token `t`. -/
def Ends (x : Write γ) (h : String) (t : Int) : Prop :=
  HeldBy h t x.old ∧ ¬ HeldBy h t (some x.new)

/-- The write does not shorten the tenure it continues. -/
def Lasting (x : Write γ) : Prop :=
  ∀ r, x.old = some r → ∀ h t, x.Continues h t → r.expiresAt ≤ x.new.expiresAt

/-- The write is `Release(k, h, t)` of exactly that tenure. -/
def Releases (x : Write γ) (k : Key) (h : String) (t : Int) : Prop :=
  x.op = some (.release k h t) ∧ HeldBy h t x.old

end Write

variable {γ : Type}

/-- The record of `k` after the writes `ws` (newest first). -/
def storedAt (ws : List (Write γ)) (k : Key) : Option Record :=
  (ws.find? (fun x => x.new.key == k)).map (·.new)

/-- The record is there and expired at the reading. -/
def expiredAt : Option Record → Option Time → Bool
  | some r, some t => r.expired t
  | _, _ => false

/-- Writes, newest first, each a transition from what the older ones left. -/
inductive History : List (Write γ) → Prop where
  | nil : History []
  | cons {x : Write γ} {ws : List (Write γ)} (h : History ws) (legit : x.Legit)
      (old : x.old = storedAt ws x.new.key) : History (x :: ws)

/-- Readings come from one clock: a write is decided after everything it
replaces has landed, and lands after it is decided. -/
inductive Timely : List (Write γ) → Prop where
  | nil : Timely []
  | cons {x : Write γ} {ws : List (Write γ)} {t : Time} (h : Timely ws)
      (reading : x.reading = some t) (landed : t ≤ x.landed)
      (before : ∀ y ∈ ws, y.new.key = x.new.key → y.landed ≤ t) : Timely (x :: ws)

/-- `x` is entry number `n` of a log kept newest first, counting from 0. -/
def IsWrite {ε : Type} (ws : List ε) (n : Nat) (x : ε) : Prop :=
  ∃ ws₀, (x :: ws₀) <:+ ws ∧ ws₀.length = n

/-- At some instant between write counts `lo` and `hi` the stored record of
`k` satisfied `P`. -/
def AtInstant (ws : List (Write γ)) (lo hi : Nat) (k : Key) (P : Option Record → Prop) : Prop :=
  ∃ ws₀, ws₀ <:+ ws ∧ lo ≤ ws₀.length ∧ ws₀.length ≤ hi ∧ P (storedAt ws₀ k)

instance (ws : List (Write γ)) (lo hi : Nat) (k : Key) (P : Option Record → Prop)
    [DecidablePred P] : Decidable (AtInstant ws lo hi k P) :=
  decidable_of_iff (∃ ws₀ ∈ ws.tails, lo ≤ ws₀.length ∧ ws₀.length ≤ hi ∧ P (storedAt ws₀ k))
    (by simp [AtInstant, List.mem_tails])

/-- `x` is the last write of `h`'s tenure of `k` under token `t`. -/
def LastOf (ws : List (Write γ)) (k : Key) (h : String) (t : Int) (x : Write γ) : Prop :=
  x ∈ ws ∧ x.new.key = k ∧ HeldBy h t (some x.new) ∧
    ∀ y ∈ ws, y.new.key = k → HeldBy h t (some y.new) → y.new.version ≤ x.new.version

/-- `h` occupies `k` under token `t` at instant `τ`: from the grant up to
the last stored expiry or the release, whichever is first. -/
def Occupies (ws : List (Write γ)) (k : Key) (h : String) (t : Int) (τ : Time) : Prop :=
  ∃ x, LastOf ws k h t x ∧ x.new.acquiredAt ≤ τ ∧ τ < x.new.expiresAt ∧
    ∀ y ∈ ws, y.Releases k h t → τ < y.landed

end Berth.Lease
