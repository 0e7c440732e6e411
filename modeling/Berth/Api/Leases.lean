/-
Berth.Api.Leases — the lease endpoints of the API server
(`internal/api/leases.go`, `internal/api/middleware.go`).

A handler is a program over store operations: it checks the decoded
body, authorizes, checks the key and only then calls the manager. What
`decodeJSON` makes of the raw body is part of the request: either the
decoded fields or the error response it already wrote. The identity is
the one `AuthMiddleware` attached to the request context; it is absent
exactly when authentication is off.
-/
import Berth.Lease.Manager
import Berth.Tenant.Authorizer

namespace Berth.Api

open Berth.Interleave Berth.Lease Berth.Tenant

/-! ## Requests and responses -/

/-- `AcquireRequest`. -/
structure AcquireRequest where
  holder : String
  ttlSeconds : Int
  deriving DecidableEq, Repr

/-- `RenewRequest`. -/
structure RenewRequest where
  holder : String
  fencingToken : Int
  ttlSeconds : Int
  deriving DecidableEq, Repr

/-- `ReleaseRequest`. -/
structure ReleaseRequest where
  holder : String
  fencingToken : Int
  deriving DecidableEq, Repr

/-- What a handler writes: nothing, a `LeaseResponse` or an
`errorResponse`. -/
inductive Body where
  | none
  | lease (r : AcquireResult)
  | error (msg : String)
  deriving DecidableEq, Repr

/-- Status code and body. -/
structure Response where
  status : Nat
  body : Body
  deriving DecidableEq, Repr

/-- `writeError`. -/
def writeError (status : Nat) (msg : String) : Response := ⟨status, .error msg⟩

/-- `writeInternalError`: the detail stays in the server's log. -/
def writeInternalError (_ : Err) : Response := writeError 500 "internal error"

/-- The three lease endpoints, with the decoded body or the error
response `decodeJSON` wrote. -/
inductive Endpoint where
  | acquire (body : Except Response AcquireRequest)
  | renew (body : Except Response RenewRequest)
  | release (body : Except Response ReleaseRequest)
  deriving DecidableEq

/-- A request to a lease endpoint, with the identity found in its context. -/
structure HttpRequest where
  identity : Option Identity
  key : Key
  endpoint : Endpoint

/-! ## Handlers -/

/-- `authorize`: the error response when the request is denied. -/
def authorize (authz : Option Authorizer) (id : Option Identity) (ns holder : String) :
    Except Response Unit :=
  match id with
  | none => .ok ()
  | some i =>
    match authz with
    | none => .error (writeError 403 "forbidden")
    | some a =>
      match a.authorizeNamespace (some i) ns with
      | .error _ => .error (writeError 403 "not authorized for this namespace")
      | .ok () =>
        match a.authorizeHolder (some i) holder with
        | .error _ => .error (writeError 403 "holder not authorized for this identity")
        | .ok () => .ok ()

/-- `validateKey` of the HTTP layer. -/
def validateKey (key : Key) : Except Response Unit :=
  match Lease.validateKey key with
  | .error e => .error (writeError 400 e.text)
  | .ok () => .ok ()

/-- The part the three handlers share: authorize, check the key, call
the manager. -/
def guarded (authz : Option Authorizer) (id : Option Identity) (key : Key) (holder : String)
    (call : Prog StoreSig Response) : Prog StoreSig Response :=
  match authorize authz id key.ns holder with
  | .error resp => return resp
  | .ok () =>
    match validateKey key with
    | .error resp => return resp
    | .ok () => call

/-- `handleAcquire`. -/
def handleAcquire (authz : Option Authorizer) (id : Option Identity) (key : Key)
    (req : AcquireRequest) : Prog StoreSig Response :=
  match validateHolder req.holder with
  | .error e => return writeError 400 e.text
  | .ok () =>
    if req.ttlSeconds ≤ 0 then return writeError 400 "ttlSeconds must be positive"
    else guarded authz id key req.holder do
      match ← Manager.acquire key req.holder (req.ttlSeconds * second) with
      | .error e => return writeInternalError e
      | .ok res => return ⟨200, .lease res⟩

/-- `handleRenew`. -/
def handleRenew (authz : Option Authorizer) (id : Option Identity) (key : Key)
    (req : RenewRequest) : Prog StoreSig Response :=
  match validateHolder req.holder with
  | .error e => return writeError 400 e.text
  | .ok () =>
    if req.fencingToken = 0 then return writeError 400 "fencingToken must be non-zero"
    else if req.ttlSeconds ≤ 0 then return writeError 400 "ttlSeconds must be positive"
    else guarded authz id key req.holder do
      match ← Manager.renew key req.holder req.fencingToken (req.ttlSeconds * second) with
      | .error e => return writeInternalError e
      | .ok res => return ⟨200, .lease res⟩

/-- `handleRelease`. -/
def handleRelease (authz : Option Authorizer) (id : Option Identity) (key : Key)
    (req : ReleaseRequest) : Prog StoreSig Response :=
  if req.holder = "" then return writeError 400 "holder is required"
  else guarded authz id key req.holder do
    match ← Manager.release key req.holder req.fencingToken with
    | .error e =>
      if e.is .conflict then return writeError 409 "lease held by another identity or token"
      else return writeInternalError e
    | .ok () => return ⟨204, .none⟩

/-- The route: decode, then the endpoint's handler. -/
def handle (authz : Option Authorizer) (req : HttpRequest) : Prog StoreSig Response :=
  match req.endpoint with
  | .acquire (.error resp) => return resp
  | .acquire (.ok body) => handleAcquire authz req.identity req.key body
  | .renew (.error resp) => return resp
  | .renew (.ok body) => handleRenew authz req.identity req.key body
  | .release (.error resp) => return resp
  | .release (.ok body) => handleRelease authz req.identity req.key body

/-! ## In front of the manager -/

section Guard

variable {authz : Option Authorizer} {id : Option Identity} {key : Key} {holder : String}
variable {resp : Response}

/-- A response that blames the request. -/
def Refused (resp : Response) : Prop :=
  ∃ status msg, (status = 400 ∨ status = 403) ∧ resp = writeError status msg

theorem refused_badRequest {msg : String} : Refused (writeError 400 msg) := ⟨400, msg, .inl rfl, rfl⟩

theorem authorize_refused {ns : String} (h : authorize authz id ns holder = .error resp) :
    Refused resp := by
  unfold authorize at h
  split at h
  · cases h
  split at h
  · cases h
    exact ⟨403, _, .inr rfl, rfl⟩
  split at h
  · cases h
    exact ⟨403, _, .inr rfl, rfl⟩
  split at h
  · cases h
    exact ⟨403, _, .inr rfl, rfl⟩
  · cases h

theorem validateKey_refused (h : validateKey key = .error resp) : Refused resp := by
  unfold validateKey at h
  split at h
  · cases h
    exact refused_badRequest
  · cases h

theorem lease_validateKey (h : validateKey key = .ok ()) : Lease.validateKey key = .ok () := by
  unfold validateKey at h
  split at h
  · cases h
  · next hok => exact hok

/-- The guard answers in the place of the call, or has checked what it is
for. -/
theorem guarded_cases (authz : Option Authorizer) (id : Option Identity) (key : Key)
    (holder : String) (call : Prog StoreSig Response) :
    (∃ resp, Refused resp ∧ guarded authz id key holder call = .ret resp) ∨
      authorize authz id key.ns holder = .ok () ∧ validateKey key = .ok () ∧
        guarded authz id key holder call = call := by
  unfold guarded
  split
  · next resp hauth => exact .inl ⟨resp, authorize_refused hauth, rfl⟩
  rename_i hauth
  split
  · next resp hkey => exact .inl ⟨resp, validateKey_refused hkey, rfl⟩
  · next hkey => exact .inr ⟨hauth, hkey, rfl⟩

/-- What the handlers of acquisitions and renewals make of the result. -/
def answer : Except Err AcquireResult → Prog StoreSig Response
  | .error e => return writeInternalError e
  | .ok res => return ⟨200, .lease res⟩

theorem handleAcquire_cases (authz : Option Authorizer) (id : Option Identity) (key : Key)
    (req : AcquireRequest) :
    (∃ resp, Refused resp ∧ handleAcquire authz id key req = .ret resp) ∨
      validateHolder req.holder = .ok () ∧ 0 < req.ttlSeconds ∧
        authorize authz id key.ns req.holder = .ok () ∧ validateKey key = .ok () ∧
        handleAcquire authz id key req =
          (Manager.acquire key req.holder (req.ttlSeconds * second)).bind answer := by
  unfold handleAcquire
  split
  · exact .inl ⟨_, refused_badRequest, rfl⟩
  rename_i hholder
  split
  · exact .inl ⟨_, refused_badRequest, rfl⟩
  rename_i httl
  refine (guarded_cases authz id key req.holder _).imp_right ?_
  rintro ⟨hauth, hkey, heq⟩
  exact ⟨hholder, Int.not_le.mp httl, hauth, hkey, heq⟩

theorem handleRenew_cases (authz : Option Authorizer) (id : Option Identity) (key : Key)
    (req : RenewRequest) :
    (∃ resp, Refused resp ∧ handleRenew authz id key req = .ret resp) ∨
      validateHolder req.holder = .ok () ∧ req.fencingToken ≠ 0 ∧ 0 < req.ttlSeconds ∧
        authorize authz id key.ns req.holder = .ok () ∧ validateKey key = .ok () ∧
        handleRenew authz id key req =
          (Manager.renew key req.holder req.fencingToken (req.ttlSeconds * second)).bind answer := by
  unfold handleRenew
  split
  · exact .inl ⟨_, refused_badRequest, rfl⟩
  rename_i hholder
  split
  · exact .inl ⟨_, refused_badRequest, rfl⟩
  rename_i hzero
  split
  · exact .inl ⟨_, refused_badRequest, rfl⟩
  rename_i httl
  refine (guarded_cases authz id key req.holder _).imp_right ?_
  rintro ⟨hauth, hkey, heq⟩
  exact ⟨hholder, hzero, Int.not_le.mp httl, hauth, hkey, heq⟩

/-- What the handler of a release makes of the result. -/
def answerRelease : Except Err Unit → Prog StoreSig Response
  | .error e =>
    if e.is .conflict then return writeError 409 "lease held by another identity or token"
    else return writeInternalError e
  | .ok () => return ⟨204, .none⟩

theorem handleRelease_cases (authz : Option Authorizer) (id : Option Identity) (key : Key)
    (req : ReleaseRequest) :
    (∃ resp, Refused resp ∧ handleRelease authz id key req = .ret resp) ∨
      req.holder ≠ "" ∧ authorize authz id key.ns req.holder = .ok () ∧ validateKey key = .ok () ∧
        handleRelease authz id key req =
          (Manager.release key req.holder req.fencingToken).bind answerRelease := by
  unfold handleRelease
  split
  · exact .inl ⟨_, refused_badRequest, rfl⟩
  rename_i hholder
  refine (guarded_cases authz id key req.holder _).imp_right ?_
  rintro ⟨hauth, hkey, heq⟩
  exact ⟨hholder, hauth, hkey, heq⟩

end Guard

/-- With authentication on, a request that gets past `authorize` acts
for a holder its identity's tenant owns. -/
theorem authorize_default {id : Identity} {ns holder : String}
    (h : authorize (some DefaultAuthorizer.new) (some id) ns holder = .ok ()) :
    DefaultAuthorizer.authorizeHolder (some id) holder = .ok () := by
  simp only [authorize, DefaultAuthorizer.new] at h
  split at h
  · cases h
  · split at h
    · cases h
    · next hok => exact hok

end Berth.Api
