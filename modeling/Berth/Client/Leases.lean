/-
Berth.Client.Leases — the API client (`pkg/client/leases.go`) and the
requests it has under way.

A client call is a POST and, some time later, its answer. The server's
side of a request is a thread of the server's pool: `submit` starts it,
`reply?` is its answer once it has one. Between the two anything may
happen, and a client that gives up leaves the thread where it is. What
the client sees is either the answer, read by `decode`, or an error of
the transport.
-/
import Berth.Lease.Decimal
import Berth.Server.World

namespace Berth.Client

open Berth.Interleave Berth.Lease Berth.Api Berth.Server

/-! ## Requests -/

/-- The body of `Client.Acquire`. -/
def acquireEndpoint (holder : String) (ttl : Duration) : Endpoint :=
  .acquire (.ok { holder := holder, ttlSeconds := toInt32 (ttl.tdiv second) })

/-- The body of `Client.Renew`. -/
def renewEndpoint (holder : String) (fencingToken : Int) (ttl : Duration) : Endpoint :=
  .renew (.ok { holder := holder, fencingToken := fencingToken
                ttlSeconds := toInt32 (ttl.tdiv second) })

/-- The body of `Client.Release`. -/
def releaseEndpoint (holder : String) (fencingToken : Int) : Endpoint :=
  .release (.ok { holder := holder, fencingToken := fencingToken })

/-! ## Answers -/

/-- `client.ErrConflict`. -/
def errConflict : Err := .sentinel .clientConflict

/-- The error text of a response body. -/
def errBody : Body → String
  | .error msg => "\x7b\"error\":\"" ++ msg ++ "\"\x7d"
  | _ => ""

/-- The status part of `postJSON`: an error, nothing to decode, or a body. -/
def checkStatus (resp : Response) : Except Err (Option Body) :=
  if resp.status = 409 then .error errConflict
  else if resp.status = 204 then .ok none
  else if 400 ≤ resp.status then
    .error (.new ("server status " ++ toString resp.status ++ ": " ++ errBody resp.body))
  else .ok (some resp.body)

/-- `postJSON` with an `AcquireResult` to fill. A body that is some other
JSON object leaves every field zero. -/
def decode (resp : Response) : Except Err AcquireResult :=
  match checkStatus resp with
  | .error e => .error e
  | .ok none => .ok { acquired := false }
  | .ok (some (.lease r)) => .ok r
  | .ok (some (.error _)) => .ok { acquired := false }
  | .ok (some .none) => .error (.wrap "decode response" (.new "EOF"))

/-- `postJSON` without a result to fill. -/
def decodeRelease (resp : Response) : Except Err Unit := (checkStatus resp).map fun _ => ()

/-! ## The server's side -/

variable {cfg : Server.Config}

/-- A request arrives: its thread number and the pool that has it. -/
def submit (p : Pool (machine cfg)) (req : HttpRequest) : Nat × Pool (machine cfg) :=
  (p.threads.length,
    { p with threads := p.threads ++
        [{ call := .http req, loc := .start (.http req) p.shared, prog := prog cfg (.http req) }] })

/-- The answer to request number `id`, once there is one. -/
def reply? (p : Pool (machine cfg)) (id : Nat) : Option Response :=
  match p.threads[id]?.bind fun t => t.prog.result? with
  | some (.response r) => some r
  | _ => none

end Berth.Client
