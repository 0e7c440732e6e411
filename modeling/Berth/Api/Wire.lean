/-
Berth.Api.Wire — requests and responses of the API server as they come and
go (`internal/api/routes.go`, `middleware.go`, `leases.go`, `obs.go`).

`Api/Leases.lean` begins with a decoded request and ends with a response
whose body is a value. Here is what lies in front of it: the routes, the
bearer token, the body with its limit and its JSON, and the text of what
is answered. `serve` is a program over the operations of the store, like
the handlers inside it.

The texts of the JSON decoder's errors are a parameter. What a broken
connection has delivered of a body comes with the request. Of a redirect
only the location is kept.
-/
import Berth.Acquire.Config
import Berth.Api.Leases
import Berth.Calendar.Text
import Berth.Http.Mux
import Berth.Json.Decode
import Berth.Json.Text
import Berth.Lease.Decimal

namespace Berth.Api

open Berth.Acquire (trimSpace)
open Berth.Http Berth.Interleave Berth.Json Berth.Lease Berth.Tenant

/-! ## Raw requests and responses -/

/-- The headers that are read; an absent one is empty. -/
structure Header where
  authorization : String := ""
  xRequestId : String := ""
  traceparent : String := ""
  deriving DecidableEq, Repr

/-- What arrives of a body, and whether the connection broke after it. -/
structure Upload where
  data : List Char
  broken : Bool := false

/-- `http.Request`; the path is its escaped one. -/
structure RawRequest where
  method : String
  path : String
  header : Header := {}
  body : Upload := { data := [] }

/-- What is sent back. -/
structure RawResponse where
  status : Nat
  allow : List String := []
  location : Option String := none
  body : List Char := []
  deriving DecidableEq, Repr

/-- `writePlain`. -/
def writePlain (status : Nat) (body : String) : RawResponse :=
  { status := status, body := body.toList }

/-! ## Bodies of requests -/

/-- An `int32` from the literal of a number. -/
def readInt32 : Value → Option Int := readNumber parseInt32

def AcquireRequest.zero : AcquireRequest := ⟨"", 0⟩

def AcquireRequest.schema : Schema AcquireRequest :=
  [ ("holder", field readString fun r v => { r with holder := v }),
    ("ttlSeconds", field readInt32 fun r v => { r with ttlSeconds := v })]

def RenewRequest.zero : RenewRequest := ⟨"", 0, 0⟩

def RenewRequest.schema : Schema RenewRequest :=
  [ ("holder", field readString fun r v => { r with holder := v }),
    ("fencingToken", field readInt32 fun r v => { r with fencingToken := v }),
    ("ttlSeconds", field readInt32 fun r v => { r with ttlSeconds := v })]

def ReleaseRequest.zero : ReleaseRequest := ⟨"", 0⟩

def ReleaseRequest.schema : Schema ReleaseRequest :=
  [ ("holder", field readString fun r v => { r with holder := v }),
    ("fencingToken", field readInt32 fun r v => { r with fencingToken := v })]

/-- `maxLeaseBodyBytes`. -/
def maxLeaseBodyBytes : Nat := 4096

/-- The length of a text in bytes. -/
def byteLength (cs : List Char) : Nat := (cs.map Char.utf8Size).sum

/-- `decodeJSON`: the decoded body or the error it answers with. -/
def decodeJSON {α : Type} (jsonErr : List Char → String) (schema : Schema α) (zero : α)
    (body : Upload) : Except Response α :=
  if maxLeaseBodyBytes < byteLength body.data then
    .error (writeError 413 "request body must be at most 4096 bytes")
  else if body.broken then .error (writeError 400 "could not read request body")
  else
    match parse body.data with
    | none => .error (writeError 400 ("invalid json body: " ++ jsonErr body.data))
    | some (v, rest) =>
      match decodeInto true schema zero v with
      | none => .error (writeError 400 ("invalid json body: " ++ jsonErr body.data))
      | some req =>
        if skipSpace rest = [] then .ok req
        else .error (writeError 400 "request body must contain one JSON object")

/-! ## Bodies of responses -/

/-- The layout of `time.Time` in JSON. -/
def jsonTime : Calendar.Layout := ⟨'T', 9, true⟩

/-- `Time.MarshalJSON`, which has four digits for a year. -/
def marshalTime (t : Time) : Option Value :=
  if 0 ≤ (Calendar.date t).year ∧ (Calendar.date t).year ≤ 9999 then
    some (.str (String.ofList (Calendar.format jsonTime t)))
  else none

/-- `omitempty` on a text. -/
def omitEmpty (key s : String) : Fields := if s = "" then [] else [(key, .str s)]

/-- `omitempty` on a number. -/
def omitZero (key : String) (v : Int) : Fields := if v = 0 then [] else [(key, .num (formatInt v))]

/-- `LeaseResponse`. A time is a struct, which `omitempty` never leaves out. -/
def marshalLease (r : AcquireResult) : Option Value := do
  let expiresAt ← marshalTime r.expiresAt
  let acquiredAt ← marshalTime r.acquiredAt
  some (.obj (("acquired", .bool r.acquired) :: (omitEmpty "holder" r.holder ++
    omitZero "fencingToken" r.fencingToken ++
    [("expiresAt", expiresAt), ("acquiredAt", acquiredAt)])))

/-- `errorResponse`. -/
def marshalError (msg requestID : String) : Value :=
  .obj (("error", .str msg) :: omitEmpty "requestId" requestID)

/-- `writeJSON`: what cannot be encoded leaves the body empty. -/
def writeJSON (status : Nat) (body : Option Value) : RawResponse :=
  { status := status, body := (body.map fun v => render v ++ ['\n']).getD [] }

/-- The text of a response. Only `writeInternalError` answers with 500, and
it is the one that names the request. -/
def writeResponse (requestID : String) (resp : Response) : RawResponse :=
  match resp.body with
  | .none => { status := resp.status }
  | .lease r => writeJSON resp.status (marshalLease r)
  | .error msg =>
    writeJSON resp.status (some (marshalError msg (if resp.status = 500 then requestID else "")))

theorem status_writeResponse (id : String) (resp : Response) :
    (writeResponse id resp).status = resp.status := by
  unfold writeResponse
  split <;> rfl

/-! ## Request ids -/

/-- The characters of `isSafeRequestID`. -/
def isIDChar (c : Char) : Bool :=
  ('a' ≤ c && c ≤ 'z') || ('A' ≤ c && c ≤ 'Z') || ('0' ≤ c && c ≤ '9') || c == '-' || c == '_'

/-- `isSafeRequestID`. -/
def isSafeRequestID (s : String) : Bool :=
  s ≠ "" && s.utf8ByteSize ≤ 64 && s.toList.all isIDChar

/-- `isHex`, on bytes. -/
def isHex (bs : List UInt8) : Bool :=
  bs ≠ [] && bs.all fun b => (48 ≤ b && b ≤ 57) || (97 ≤ b && b ≤ 102)

/-- `traceID`: the 32 digits behind a version of two characters, between
dashes. -/
def traceID (traceparent : String) : Option String :=
  let bs := bytesOf traceparent
  let id := (bs.drop 3).take 32
  if bs.length < 36 ∨ bs[2]? ≠ some 45 then none
  else if bs[35]? ≠ some 45 ∨ isHex id = false then none
  else some (textOf id)

/-- `randomID`, on the bytes the system's generator has given, if any. -/
def randomID : Option (Vector UInt8 16) → String
  | none => "unknown"
  | some bs => String.ofList (bs.toList.flatMap fun b =>
      [Json.hexDigit (b.toNat / 16), Json.hexDigit b.toNat])

/-- `requestID`. -/
def requestID (h : Header) (random : Option (Vector UInt8 16)) : String :=
  if isSafeRequestID h.xRequestId then h.xRequestId
  else
    match (if h.traceparent = "" then none else traceID h.traceparent) with
    | some id => id
    | none => randomID random

/-! ## Authentication -/

/-- `auth.Authenticator`; an identity may be missing without an error. -/
abbrev Authenticator := String → Except Err (Option Identity)

/-- `bearerToken`. -/
def bearerToken (h : Header) : Option String :=
  let scheme := "Bearer ".toList
  if scheme.isPrefixOf h.authorization.toList then
    let token := trimSpace (String.ofList (h.authorization.toList.drop scheme.length))
    if token = "" then none else some token
  else none

/-- `AuthMiddleware`: the identity, or the answer. -/
def authenticate (authn : Authenticator) (h : Header) : Except Response Identity :=
  match bearerToken h with
  | none => .error (writeError 401 "missing or malformed Authorization header")
  | some token =>
    match authn token with
    | .ok (some id) => .ok id
    | _ => .error (writeError 401 "unauthorized")

/-! ## Routes -/

/-- What is registered with the multiplexer. -/
inductive Handler where
  | healthz
  | readyz
  | acquire
  | renew
  | release
  deriving DecidableEq, Repr

/-- The pattern of a lease endpoint. -/
def leasePattern (op : String) : Pattern :=
  ⟨"POST", [.lit "v1alpha1", .lit "namespaces", .wild "namespace", .lit "leases", .wild "name",
    .lit op]⟩

/-- `registerLeaseRoutes`. -/
def leaseRoutes : ServeMux Handler :=
  [(leasePattern "acquire", .acquire), (leasePattern "renew", .renew),
    (leasePattern "release", .release)]

/-- `NewMux`: without a manager there are no lease routes. -/
def newMux (managed : Bool) : ServeMux Handler :=
  [(⟨"GET", [.lit "healthz"]⟩, .healthz), (⟨"GET", [.lit "readyz"]⟩, .readyz)] ++
    if managed then leaseRoutes else []

/-- How a server is set up. -/
structure Front where
  authn : Option Authenticator
  authz : Option Authorizer
  jsonErr : List Char → String

/-- The policy `NewMux` hands to the handlers. -/
def Front.authorizer (f : Front) : Option Authorizer :=
  if f.authn.isSome then some (f.authz.getD DefaultAuthorizer.new) else f.authz

/-- What the context of a request adds: the answer of the readiness gate,
and random bytes. -/
structure Context where
  ready : Bool
  random : Option (Vector UInt8 16)

/-- `r.PathValue`. -/
def pathValue (values : PathValues) (name : String) : String := (values.lookup name).getD ""

/-- The lease a route names. -/
def routeKey (values : PathValues) : Key :=
  { ns := pathValue values "namespace", name := pathValue values "name" }

/-- A lease endpoint behind the middleware. -/
def serveLease (f : Front) (ctx : Context) (r : RawRequest) (values : PathValues)
    (endpoint : Endpoint) : Prog StoreSig RawResponse :=
  let write := writeResponse (requestID r.header ctx.random)
  let next (id : Option Identity) : Prog StoreSig RawResponse := do
    let resp ← handle f.authorizer { identity := id, key := routeKey values, endpoint := endpoint }
    return write resp
  match f.authn with
  | none => next none
  | some authn =>
    match authenticate authn r.header with
    | .error resp => return write resp
    | .ok id => next (some id)

/-- The server on one request. -/
def serve (f : Front) (managed : Bool) (ctx : Context) (r : RawRequest) :
    Prog StoreSig RawResponse :=
  match findHandler (newMux managed) r.method r.path with
  | .redirect location => return { status := 307, location := some location }
  | .notFound => return writePlain 404 "404 page not found\n"
  | .methodNotAllowed allow =>
    return { writePlain 405 "Method Not Allowed\n" with allow := allow }
  | .handler .healthz _ => return writePlain 200 "ok\n"
  | .handler .readyz _ =>
    return if ctx.ready then writePlain 200 "ok\n" else writePlain 503 "not ready\n"
  | .handler .acquire values =>
    serveLease f ctx r values
      (.acquire (decodeJSON f.jsonErr AcquireRequest.schema AcquireRequest.zero r.body))
  | .handler .renew values =>
    serveLease f ctx r values
      (.renew (decodeJSON f.jsonErr RenewRequest.schema RenewRequest.zero r.body))
  | .handler .release values =>
    serveLease f ctx r values
      (.release (decodeJSON f.jsonErr ReleaseRequest.schema ReleaseRequest.zero r.body))

end Berth.Api
