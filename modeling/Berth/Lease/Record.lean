/-
Berth.Lease.Record — lease keys and records, and the checks on keys and
holders (`internal/lease/store.go`, `internal/lease/validate.go`).

Instants and durations are integers counting nanoseconds; `zeroTime` is
Go's zero `time.Time`. A fencing token is an `int32` in the source and an
`Int` here: `Manager.acquire` never computes a token outside
`1 .. maxInt32` (`Server/FencingTheorems.lean`), so no addition wraps. A
record's version is the store's write counter.

An `Err` is a Go error as `errors.Is` sees it: a sentinel, a plain text,
or a text wrapped around another error.
-/

namespace Berth.Lease

/-! ## Time -/

/-- An instant, in nanoseconds since the Unix epoch. -/
abbrev Time := Int

/-- A length of time, in nanoseconds. -/
abbrev Duration := Int

/-- `time.Second`. -/
def second : Duration := 1000000000

/-- The zero `time.Time`: January 1 of year 1, UTC. -/
def zeroTime : Time := -62135596800 * 1000000000

/-- `math.MaxInt32`. -/
def maxInt32 : Int := 2147483647

/-! ## Errors -/

/-- The error values the code compares against with `errors.Is`. -/
inductive Sentinel where
  /-- `lease.ErrNotFound` -/
  | notFound
  /-- `lease.ErrConflict` -/
  | conflict
  /-- `client.ErrConflict` -/
  | clientConflict
  deriving DecidableEq, Repr

/-- A Go `error`. -/
inductive Err where
  | sentinel (s : Sentinel)
  | new (msg : String)
  | wrap (msg : String) (e : Err)
  deriving DecidableEq, Repr

/-- `errors.Is`. -/
def Err.is : Err → Sentinel → Bool
  | .sentinel s, t => s == t
  | .new _, _ => false
  | .wrap _ e, t => e.is t

/-- `err.Error()`. -/
def Err.text : Err → String
  | .sentinel .notFound => "lease: not found"
  | .sentinel .conflict => "lease: conflict"
  | .sentinel .clientConflict => "client: lease conflict"
  | .new msg => msg
  | .wrap msg e => msg ++ ": " ++ e.text

/-- `lease.ErrNotFound`. -/
def errNotFound : Err := .sentinel .notFound

/-- `lease.ErrConflict`. -/
def errConflict : Err := .sentinel .conflict

@[simp] theorem Err.is_sentinel (s t : Sentinel) : (Err.sentinel s).is t = (s == t) := rfl
@[simp] theorem Err.is_new (m : String) (t : Sentinel) : (Err.new m).is t = false := rfl
@[simp] theorem Err.is_wrap (m : String) (e : Err) (t : Sentinel) :
    (Err.wrap m e).is t = e.is t := rfl

/-! ## Keys and records -/

/-- `Key`: the pair that identifies a lease. -/
structure Key where
  ns : String
  name : String
  deriving DecidableEq, Repr

/-- `Record`: the persisted state of one lease. -/
structure Record where
  key : Key
  holder : String
  ttl : Duration
  acquiredAt : Time
  renewedAt : Time
  fencingToken : Int
  version : Int
  deriving DecidableEq, Repr

namespace Record

/-- `Record.ExpiresAt`. -/
def expiresAt (r : Record) : Time := r.renewedAt + r.ttl

/-- `Record.Expired`: strictly after the expiry instant. -/
def expired (r : Record) (now : Time) : Bool := decide (r.expiresAt < now)

/-- `Record.Tombstone`: an empty holder marks a released lease. -/
def tombstone (r : Record) : Bool := r.holder == ""

@[simp] theorem expired_iff {r : Record} {now : Time} :
    r.expired now = true ↔ r.expiresAt < now := by simp [expired]

@[simp] theorem expired_eq_false_iff {r : Record} {now : Time} :
    r.expired now = false ↔ now ≤ r.expiresAt := by simp [expired]

@[simp] theorem tombstone_iff {r : Record} : r.tombstone = true ↔ r.holder = "" := by
  simp [tombstone]

@[simp] theorem tombstone_eq_false_iff {r : Record} :
    r.tombstone = false ↔ r.holder ≠ "" := by simp [tombstone]

end Record

/-- The record is held by `h` under token `t`. -/
def HeldBy (h : String) (t : Int) : Option Record → Prop
  | none => False
  | some r => r.holder = h ∧ r.fencingToken = t

instance (h : String) (t : Int) : (o : Option Record) → Decidable (HeldBy h t o)
  | none => inferInstanceAs (Decidable False)
  | some r => inferInstanceAs (Decidable (r.holder = h ∧ r.fencingToken = t))

@[simp] theorem heldBy_none {h : String} {t : Int} : ¬ HeldBy h t none := id

/-! ## Validation

`k8s.io/apimachinery/pkg/util/validation` is outside the repository; its
two documented checks are an RFC 1123 label and an RFC 1123 subdomain. -/

/-- `[a-z0-9]`. -/
def isAlnum (c : Char) : Bool := ('a' ≤ c && c ≤ 'z') || ('0' ≤ c && c ≤ '9')

/-- `[a-z0-9]([-a-z0-9]*[a-z0-9])?`. -/
def dns1123LabelMatch (cs : List Char) : Bool :=
  cs.all (fun c => isAlnum c || c == '-') &&
    cs.head?.any isAlnum && cs.getLast?.any isAlnum

/-- One or more labels separated by dots. -/
def dns1123SubdomainMatch (cs : List Char) : Bool :=
  (cs.splitOn '.').all dns1123LabelMatch

/-- `validation.IsDNS1123Label`: the list of complaints. -/
def isDNS1123Label (value : String) : List String :=
  (if 63 < value.utf8ByteSize then ["must be no more than 63 characters"] else []) ++
  (if dns1123LabelMatch value.toList then []
   else if dns1123SubdomainMatch value.toList then ["must not contain dots"]
   else ["a lowercase RFC 1123 label must consist of lower case alphanumeric characters or '-', " ++
     "and must start and end with an alphanumeric character (e.g. 'my-name',  or '123-abc', " ++
     "regex used for validation is '[a-z0-9]([-a-z0-9]*[a-z0-9])?')"])

/-- `validation.IsDNS1123Subdomain`: the list of complaints. -/
def isDNS1123Subdomain (value : String) : List String :=
  (if 253 < value.utf8ByteSize then ["must be no more than 253 characters"] else []) ++
  (if dns1123SubdomainMatch value.toList then []
   else ["a lowercase RFC 1123 subdomain must consist of lower case alphanumeric characters, '-' " ++
     "or '.', and must start and end with an alphanumeric character (e.g. 'example.com', regex " ++
     "used for validation is '[a-z0-9]([-a-z0-9]*[a-z0-9])?(\\.[a-z0-9]([-a-z0-9]*[a-z0-9])?)*')"])

/-- `MaxHolderBytes`. -/
def maxHolderBytes : Nat := 253

/-- `ValidateHolder`. -/
def validateHolder (holder : String) : Except Err Unit :=
  if holder = "" then .error (.new "holder is required")
  else if maxHolderBytes < holder.utf8ByteSize then
    .error (.new "holder must be at most 253 bytes")
  else .ok ()

/-- `maxEncodedKeyLength`. -/
def maxEncodedKeyLength : Nat := 253

/-- Go's `%q` on text without characters that need an escape. -/
def quote (s : String) : String := "\"" ++ s ++ "\""

/-- `ValidateKey`. -/
def validateKey (key : Key) : Except Err Unit :=
  match isDNS1123Label key.ns with
  | e :: _ => .error (.new ("invalid namespace " ++ quote key.ns ++
      ": must be an RFC 1123 DNS label (lowercase alphanumerics and '-', at most 63 characters): "
      ++ e))
  | [] =>
    match isDNS1123Subdomain key.name with
    | e :: _ => .error (.new ("invalid name " ++ quote key.name ++
        ": must be an RFC 1123 DNS subdomain (lowercase alphanumerics, '-' and '.', " ++
        "at most 253 characters): " ++ e))
    | [] =>
      let n := key.ns.utf8ByteSize + 1 + key.name.utf8ByteSize
      if maxEncodedKeyLength < n then
        .error (.new ("invalid key " ++ key.ns ++ "/" ++ key.name ++
          ": namespace and name joined with '.' must be at most 253 characters, got " ++
          toString n))
      else .ok ()

/-- An accepted holder is not the tombstone marker. -/
theorem validateHolder_ne_empty {h : String} (hv : validateHolder h = .ok ()) : h ≠ "" := by
  intro he
  simp [validateHolder, he] at hv

end Berth.Lease
