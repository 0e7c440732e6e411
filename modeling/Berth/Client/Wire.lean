/-
Berth.Client.Wire — what the API client sends and how it reads the answer
(`pkg/client/leases.go`).

`Client/Leases.lean` hands the server a decoded request and gets a response
whose body is a value. Here the client writes a path, a header and a JSON
text, and reads a status and a text. The base URL is taken to have no path
of its own. The texts of the JSON decoder's errors are a parameter.
-/
import Berth.Api.Wire
import Berth.Client.Leases

namespace Berth.Client

open Berth.Acquire (trimSpace)
open Berth.Api Berth.Http Berth.Json Berth.Lease

/-! ## Requests -/

/-- The three calls, with what goes into their bodies. -/
inductive LeaseCall where
  | acquire (holder : String) (ttl : Duration)
  | renew (holder : String) (fencingToken : Int) (ttl : Duration)
  | release (holder : String) (fencingToken : Int)

namespace LeaseCall

/-- The last segment of the path. -/
def op : LeaseCall → String
  | .acquire _ _ => "acquire"
  | .renew _ _ _ => "renew"
  | .release _ _ => "release"

/-- What `json.Marshal` makes of the map: its keys are sorted. -/
def body : LeaseCall → Value
  | .acquire holder ttl =>
    .obj [("holder", .str holder), ("ttlSeconds", .num (formatInt (toInt32 (ttl.tdiv second))))]
  | .renew holder fencingToken ttl =>
    .obj [("fencingToken", .num (formatInt fencingToken)), ("holder", .str holder),
      ("ttlSeconds", .num (formatInt (toInt32 (ttl.tdiv second))))]
  | .release holder fencingToken =>
    .obj [("fencingToken", .num (formatInt fencingToken)), ("holder", .str holder)]

/-- The decoded request that is meant. -/
def endpoint : LeaseCall → Endpoint
  | .acquire holder ttl => acquireEndpoint holder ttl
  | .renew holder fencingToken ttl => renewEndpoint holder fencingToken ttl
  | .release holder fencingToken => releaseEndpoint holder fencingToken

/-- The token of a call is an `int32`. -/
def InRange : LeaseCall → Prop
  | .acquire _ _ => True
  | .renew _ fencingToken _ => -maxInt32 - 1 ≤ fencingToken ∧ fencingToken ≤ maxInt32
  | .release _ fencingToken => -maxInt32 - 1 ≤ fencingToken ∧ fencingToken ≤ maxInt32

end LeaseCall

/-- The segments of a path of the API. -/
def leaseSegments (ns name op : String) : List (List Char) :=
  ["v1alpha1".toList, "namespaces".toList, pathEscape ns, "leases".toList, pathEscape name,
    op.toList]

/-- `leasePath`. -/
def leasePath (ns name op : String) : String :=
  String.ofList (Path.render (leaseSegments ns name op))

/-- The request of `postJSON`. Without a key there is no header. -/
def postRequest (apiKey : String) (key : Key) (c : LeaseCall) : RawRequest :=
  { method := "POST"
    path := leasePath key.ns key.name c.op
    header := { authorization := if apiKey = "" then "" else "Bearer " ++ apiKey }
    body := { data := Json.render c.body } }

/-! ## Answers -/

/-- `Time.UnmarshalJSON`. -/
def readTime : Value → Option Time
  | .str s => Calendar.parse jsonTime s.toList
  | _ => none

/-- The fields of `client.AcquireResult`. -/
def resultSchema : Schema AcquireResult :=
  [ ("acquired", field readBool fun r v => { r with acquired := v }),
    ("holder", field readString fun r v => { r with holder := v }),
    ("fencingToken", field readInt32 fun r v => { r with fencingToken := v }),
    ("expiresAt", field readTime fun r v => { r with expiresAt := v }),
    ("acquiredAt", field readTime fun r v => { r with acquiredAt := v })]

/-- The status part of `postJSON`: an error, nothing to decode, or a body. -/
def checkRaw (resp : RawResponse) : Except Err (Option (List Char)) :=
  if resp.status = 409 then .error errConflict
  else if resp.status = 204 then .ok none
  else if 400 ≤ resp.status then
    .error (.new ("server status " ++ toString resp.status ++ ": " ++
      trimSpace (String.ofList resp.body)))
  else .ok (some resp.body)

/-- `postJSON` with an `AcquireResult` to fill. -/
def decodeRaw (jsonErr : List Char → String) (resp : RawResponse) : Except Err AcquireResult :=
  match checkRaw resp with
  | .error e => .error e
  | .ok none => .ok { acquired := false }
  | .ok (some body) =>
    match (parse body).bind fun x => decodeInto false resultSchema { acquired := false } x.1 with
    | some r => .ok r
    | none => .error (.wrap "decode response" (.new (jsonErr body)))

/-- `postJSON` without a result to fill. -/
def decodeRawRelease (resp : RawResponse) : Except Err Unit := (checkRaw resp).map fun _ => ()

end Berth.Client
