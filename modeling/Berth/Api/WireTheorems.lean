/-
Berth.Api.WireTheorems — what has to be true of a request that reaches the
store, and what a failed one tells.

Everything in front of the manager ends a request without an operation of
the store, so a run with one has passed all of it. `Touches` is what the
manager then does: it reads the one lease, and writes for the one holder or
a tombstone. What it writes is a record that it read, so it is of the one
lease as long as the store returns records under their keys.
-/
import Berth.Api.Wire
import Berth.Auth.Oidc
import Berth.Auth.StaticTheorems

namespace Berth.Api

open Berth.Http Berth.Interleave Berth.Json Berth.Lease Berth.Tenant

variable {key : Key} {holder : String} {token : Int} {ttl : Duration} {sound : Prop}
variable {evs : List (Event StoreSig)}
variable {f : Front} {managed : Bool} {ctx : Context} {r : RawRequest} {raw : RawResponse}
variable {values : PathValues} {endpoint : Endpoint} {jsonErr : List Char → String}
variable {authz : Option Authorizer} {req : HttpRequest} {resp : Response}

/-! ## Operations of the manager -/

/-- The operations of a call for a lease by a holder. On a `sound` store
the lease is the one that is written. -/
def Touches (sound : Prop) (key : Key) (holder : String) : StoreOp → Prop
  | .get k => k = key
  | .put _ rec => (sound → rec.key = key) ∧ (rec.holder = holder ∨ rec.holder = "")
  | .now => True
  | .list => False
  | .ctxDone => False

/-- The store returns a record under its key. -/
def Keyed : Event StoreSig → Prop
  | ⟨.get k, .ok r⟩ => r.key = k
  | _ => True

/-- The program asks the store no more than that. -/
abbrev Asks {α : Type} (sound : Prop) (key : Key) (holder : String) (p : Prog StoreSig α) : Prop :=
  p.Given (sound → Keyed ·) (Touches sound key holder)

theorem given_acquireAttempt {cur : Option Record}
    {retry : Prog StoreSig (Except Err AcquireResult)}
    (h : Asks sound key holder retry) :
    Asks sound key holder (Manager.acquireAttempt key holder ttl cur retry) := by
  refine Prog.Given.perform trivial fun now _ => ?_
  split
  · trivial
  · trivial
  refine Prog.Given.perform ⟨fun _ => rfl, .inl rfl⟩ fun res _ => ?_
  cases res with
  | error e =>
    change Prog.Given _ _ (if e.is .conflict then retry else _)
    split
    · exact h
    · trivial
  | ok => trivial

theorem given_acquireLoop (n : Nat) :
    Asks sound key holder (Manager.acquireLoop key holder ttl n) := by
  induction n with
  | zero => trivial
  | succ n ih =>
    refine Prog.Given.perform rfl fun res _ => ?_
    split
    · exact given_acquireAttempt ih
    · split
      · exact given_acquireAttempt ih
      · trivial

theorem given_acquire : Asks sound key holder (Manager.acquire key holder ttl) := by
  unfold Manager.acquire
  split
  · trivial
  split
  · trivial
  · split
    · trivial
    · exact given_acquireLoop _

theorem given_renewHeld :
    Asks sound key holder (Manager.renewHeld key holder token ttl) := by
  refine Prog.Given.perform rfl fun res hres => ?_
  split
  · split <;> trivial
  rename_i cur
  refine Prog.Given.perform trivial fun now _ => ?_
  split
  · trivial
  rename_i hheld
  have hholder : cur.holder = holder := Decidable.of_not_not fun hne => hheld (.inl hne)
  refine Prog.Given.perform ⟨hres, .inl hholder⟩ fun put _ => ?_
  split
  · split
    · refine Prog.Given.bind (Prog.Given.perform rfl fun again _ => ?_) fun _ => trivial
      split <;> trivial
    · trivial
  · trivial

theorem given_renew : Asks sound key holder (Manager.renew key holder token ttl) := by
  unfold Manager.renew
  split
  · trivial
  split
  · trivial
  split
  · trivial
  · split
    · trivial
    · exact given_renewHeld

theorem given_releaseHeld :
    Asks sound key holder (Manager.releaseHeld key holder token) := by
  refine Prog.Given.perform rfl fun res hres => ?_
  split
  · split <;> trivial
  split
  · trivial
  split
  · trivial
  refine Prog.Given.perform trivial fun now _ => ?_
  refine Prog.Given.perform ⟨hres, .inr rfl⟩ fun put _ => ?_
  split
  · split <;> trivial
  · trivial

theorem given_release : Asks sound key holder (Manager.release key holder token) := by
  unfold Manager.release
  split
  · trivial
  · split
    · trivial
    · exact given_releaseHeld

/-! ## Handlers -/

/-- The holder a decoded request names. -/
def Endpoint.holder? : Endpoint → Option String
  | .acquire (.ok body) => some body.holder
  | .renew (.ok body) => some body.holder
  | .release (.ok body) => some body.holder
  | _ => none

/-- The response `decodeJSON` wrote, if it did. -/
def Endpoint.refused? : Endpoint → Option Response
  | .acquire (.error resp) => some resp
  | .renew (.error resp) => some resp
  | .release (.error resp) => some resp
  | _ => none

/-- The only response with 500 is the generic one. -/
def Generic (resp : Response) : Prop :=
  resp.status = 500 → resp = writeError 500 "internal error"

theorem generic_of_ne (h : resp.status ≠ 500) : Generic resp :=
  fun heq => absurd heq h

theorem Refused.generic (h : Refused resp) : Generic resp := by
  obtain ⟨status, msg, hstatus, rfl⟩ := h
  exact generic_of_ne (by show status ≠ 500; omega)

theorem answer_generic (res : Except Err AcquireResult) :
    ∃ resp, answer res = .ret resp ∧ Generic resp := by
  cases res with
  | error e => exact ⟨_, rfl, fun _ => rfl⟩
  | ok res => exact ⟨_, rfl, generic_of_ne (by simp)⟩

theorem answerRelease_generic (res : Except Err Unit) :
    ∃ resp, answerRelease res = .ret resp ∧ Generic resp := by
  unfold answerRelease
  split
  · split
    · exact ⟨_, rfl, generic_of_ne (by simp [writeError])⟩
    · exact ⟨_, rfl, fun _ => rfl⟩
  · exact ⟨_, rfl, generic_of_ne (by simp)⟩

theorem Asks.answered {α : Type} {p : Prog StoreSig α} {k : α → Prog StoreSig Response}
    (hp : Asks sound key holder p) (hk : ∀ a, ∃ resp, k a = .ret resp ∧ Generic resp) :
    Asks sound key holder (p.bind k) ∧ ∀ evs resp, (p.bind k).Ran evs resp → Generic resp := by
  refine ⟨Prog.Given.bind hp fun a => ?_, fun evs resp h => ?_⟩
  · obtain ⟨resp, heq, -⟩ := hk a
    rw [heq]
    trivial
  · obtain ⟨_, _, a, rfl, -, hres⟩ := Prog.Ran.of_bind h
    obtain ⟨resp', heq, hgen⟩ := hk a
    rw [heq] at hres
    exact hres.of_ret.2 ▸ hgen

/-- A handler answers at once, or is authorized for the holder it names and
a valid key. -/
theorem handle_cases (sound : Prop) (authz : Option Authorizer) (req : HttpRequest) :
    (∃ resp, handle authz req = .ret resp ∧
        (req.endpoint.refused? = some resp ∨ Refused resp)) ∨
      ∃ holder, req.endpoint.holder? = some holder ∧
        authorize authz req.identity req.key.ns holder = .ok () ∧
        Lease.validateKey req.key = .ok () ∧ Asks sound req.key holder (handle authz req) ∧
        ∀ evs resp, (handle authz req).Ran evs resp → Generic resp := by
  obtain ⟨id, key, endpoint⟩ := req
  rcases endpoint with (resp | body) | (resp | body) | (resp | body)
  · exact .inl ⟨resp, rfl, .inl rfl⟩
  · rcases handleAcquire_cases authz id key body with ⟨resp, href, heq⟩ | ⟨-, -, hauth, hkey, heq⟩
    · exact .inl ⟨resp, heq, .inr href⟩
    · refine .inr ⟨_, rfl, hauth, lease_validateKey hkey, ?_⟩
      rw [show handle authz ⟨id, key, .acquire (.ok body)⟩ = _ from heq]
      exact given_acquire.answered answer_generic
  · exact .inl ⟨resp, rfl, .inl rfl⟩
  · rcases handleRenew_cases authz id key body with
      ⟨resp, href, heq⟩ | ⟨-, -, -, hauth, hkey, heq⟩
    · exact .inl ⟨resp, heq, .inr href⟩
    · refine .inr ⟨_, rfl, hauth, lease_validateKey hkey, ?_⟩
      rw [show handle authz ⟨id, key, .renew (.ok body)⟩ = _ from heq]
      exact given_renew.answered answer_generic
  · exact .inl ⟨resp, rfl, .inl rfl⟩
  · rcases handleRelease_cases authz id key body with ⟨resp, href, heq⟩ | ⟨-, hauth, hkey, heq⟩
    · exact .inl ⟨resp, heq, .inr href⟩
    · refine .inr ⟨_, rfl, hauth, lease_validateKey hkey, ?_⟩
      rw [show handle authz ⟨id, key, .release (.ok body)⟩ = _ from heq]
      exact given_release.answered answerRelease_generic

/-- A request whose handler asks the store anything is authorized for the
holder it names, and for a valid key. -/
theorem handle_access (h : (handle authz req).Ran evs resp) (hne : evs ≠ []) :
    ∃ holder, req.endpoint.holder? = some holder ∧
      authorize authz req.identity req.key.ns holder = .ok () ∧
      Lease.validateKey req.key = .ok () ∧
      ∀ e ∈ evs, Touches (∀ e ∈ evs, Keyed e) req.key holder e.1 := by
  rcases handle_cases (∀ e ∈ evs, Keyed e) authz req with
    ⟨resp', hret, -⟩ | ⟨holder, hholder, hauth, hkey, hasks, -⟩
  · rw [hret] at h
    exact absurd h.of_ret.1 hne
  · exact ⟨holder, hholder, hauth, hkey, hasks.ran h fun e he hkeyed => hkeyed e he⟩

/-! ## The server -/

/-- The endpoint behind the last segment of a path, with the body. -/
def endpointOf (jsonErr : List Char → String) (op : String) (body : Upload) : Option Endpoint :=
  if op = "acquire" then
    some (.acquire (decodeJSON jsonErr AcquireRequest.schema AcquireRequest.zero body))
  else if op = "renew" then
    some (.renew (decodeJSON jsonErr RenewRequest.schema RenewRequest.zero body))
  else if op = "release" then
    some (.release (decodeJSON jsonErr ReleaseRequest.schema ReleaseRequest.zero body))
  else none

theorem matchPath_leasePattern {op : String} {segs : List String}
    (h : matchPath (leasePattern op).segments segs = some values) :
    ∃ ns name, segs = ["v1alpha1", "namespaces", ns, "leases", name, op] ∧
      values = [("namespace", ns), ("name", name)] := by
  simp only [leasePattern, matchPath_lit, matchPath_wild, matchPath_nil] at h
  obtain ⟨_, rfl, _, rfl, ns, _, _, rfl, -, ⟨_, rfl, name, _, _, rfl, -, ⟨_, rfl, rfl, rfl⟩, rfl⟩,
    rfl⟩ := h
  exact ⟨ns, name, rfl, rfl⟩

/-- A lease handler is found for a POST on a path of its own. -/
theorem findHandler_lease {method path : String} {h : Handler}
    (hfind : findHandler (newMux managed) method path = .handler h values)
    (hlease : h = .acquire ∨ h = .renew ∨ h = .release) :
    managed = true ∧ method = "POST" ∧ cleanPath path = path ∧ ∃ ns name op,
      pathSegments path = ["v1alpha1", "namespaces", ns, "leases", name, op] ∧
      routeKey values = { ns := ns, name := name } ∧ (leasePattern op, h) ∈ leaseRoutes := by
  obtain ⟨hclean, p, hp, hmethod, hmatch⟩ := findHandler_handler hfind
  have hroute : managed = true ∧ (p, h) ∈ leaseRoutes := by
    rcases List.mem_append.mp hp with hp | hp
    · simp only [List.mem_cons, List.not_mem_nil, or_false, Prod.mk.injEq] at hp
      rcases hp with ⟨-, rfl⟩ | ⟨-, rfl⟩ <;> simp at hlease
    · cases managed with
      | false => simp at hp
      | true => exact ⟨rfl, hp⟩
  obtain ⟨rfl, hroute⟩ := hroute
  obtain ⟨op, rfl⟩ : ∃ op, p = leasePattern op := by
    simp only [leaseRoutes, List.mem_cons, List.not_mem_nil, or_false, Prod.mk.injEq] at hroute
    rcases hroute with ⟨rfl, -⟩ | ⟨rfl, -⟩ | ⟨rfl, -⟩ <;> exact ⟨_, rfl⟩
  have hpost : method = "POST" := by
    unfold triedMethods at hmethod
    split at hmethod
    · simp [leasePattern] at hmethod
    · simpa [leasePattern, eq_comm] using hmethod
  obtain ⟨ns, name, hsegs, rfl⟩ := matchPath_leasePattern hmatch
  refine ⟨rfl, hpost, hclean.resolve_left ?_, ns, name, op, hsegs, rfl, hroute⟩
  rw [hpost]
  decide

/-- The credentials with which a request passed the middleware, and what
they were good for. -/
def Admitted (f : Front) (h : Header) (ns holder : String) : Prop :=
  f.authn = none ∨
    ∃ authn token id, f.authn = some authn ∧ bearerToken h = some token ∧
      authn token = .ok (some id) ∧ authorize f.authorizer (some id) ns holder = .ok ()

theorem authenticate_eq_ok {authn : Authenticator} {h : Header} {id : Identity}
    (hok : authenticate authn h = .ok id) :
    ∃ token, bearerToken h = some token ∧ authn token = .ok (some id) := by
  unfold authenticate at hok
  split at hok
  · cases hok
  rename_i token htoken
  split at hok
  · next id' hid =>
    cases hok
    exact ⟨token, htoken, hid⟩
  · cases hok

theorem authenticate_eq_error {authn : Authenticator} {h : Header}
    (herr : authenticate authn h = .error resp) : ∃ msg, resp = writeError 401 msg := by
  unfold authenticate at herr
  split at herr
  · cases herr
    exact ⟨_, rfl⟩
  split at herr
  · cases herr
  · cases herr
    exact ⟨_, rfl⟩

/-- The identity the handlers work with. -/
def Identified (f : Front) (h : Header) (id : Option Identity) : Prop :=
  f.authn = none ∧ id = none ∨
    ∃ authn token i, f.authn = some authn ∧ bearerToken h = some token ∧
      authn token = .ok (some i) ∧ id = some i

/-- The middleware answers itself, or hands over to the handler. -/
theorem serveLease_ran (h : (serveLease f ctx r values endpoint).Ran evs raw) :
    (∃ msg, evs = [] ∧ raw = writeResponse (requestID r.header ctx.random) (writeError 401 msg)) ∨
      ∃ id resp, Identified f r.header id ∧
        (handle f.authorizer { identity := id, key := routeKey values, endpoint := endpoint }).Ran
          evs resp ∧
        raw = writeResponse (requestID r.header ctx.random) resp := by
  have hnext : ∀ id, ((handle f.authorizer
        { identity := id, key := routeKey values, endpoint := endpoint }).bind fun resp =>
          .ret (writeResponse (requestID r.header ctx.random) resp)).Ran evs raw →
      ∃ resp, (handle f.authorizer
          { identity := id, key := routeKey values, endpoint := endpoint }).Ran evs resp ∧
        raw = writeResponse (requestID r.header ctx.random) resp := by
    intro id hrun
    obtain ⟨evs₁, evs₂, resp, rfl, hhandle, hret⟩ := Prog.Ran.of_bind hrun
    obtain ⟨rfl, hraw⟩ := hret.of_ret
    exact ⟨resp, by rwa [List.append_nil], hraw.symm⟩
  unfold serveLease at h
  dsimp only at h
  split at h
  · next hnone =>
    obtain ⟨resp, hresp⟩ := hnext none h
    exact .inr ⟨none, resp, .inl ⟨hnone, rfl⟩, hresp⟩
  · next authn hsome =>
    split at h
    · next resp hresp =>
      obtain ⟨hevs, hraw⟩ := h.of_ret
      obtain ⟨msg, rfl⟩ := authenticate_eq_error hresp
      exact .inl ⟨msg, hevs, hraw.symm⟩
    · next i hid =>
      obtain ⟨token, htoken, hok⟩ := authenticate_eq_ok hid
      obtain ⟨resp, hresp⟩ := hnext (some i) h
      exact .inr ⟨some i, resp, .inr ⟨authn, token, i, hsome, htoken, hok, rfl⟩, hresp⟩

theorem serveLease_access (h : (serveLease f ctx r values endpoint).Ran evs raw) (hne : evs ≠ []) :
    ∃ holder, endpoint.holder? = some holder ∧ Lease.validateKey (routeKey values) = .ok () ∧
      (∀ e ∈ evs, Touches (∀ e ∈ evs, Keyed e) (routeKey values) holder e.1) ∧
      Admitted f r.header (routeKey values).ns holder := by
  rcases serveLease_ran h with ⟨_, hevs, -⟩ | ⟨id, resp, hid, hhandle, -⟩
  · exact absurd hevs hne
  obtain ⟨holder, hholder, hauth, hkey, htouch⟩ := handle_access hhandle hne
  refine ⟨holder, hholder, hkey, htouch, ?_⟩
  rcases hid with ⟨hnone, -⟩ | ⟨authn, token, i, hsome, htoken, hok, rfl⟩
  · exact .inl hnone
  · exact .inr ⟨authn, token, i, hsome, htoken, hok, hauth⟩

/-- What `serve_access` says of a request, for one of the routes. -/
structure Access (f : Front) (r : RawRequest) (evs : List (Event StoreSig)) (ns name op : String)
    (holder : String) : Prop where
  segments : pathSegments r.path = ["v1alpha1", "namespaces", ns, "leases", name, op]
  body : (endpointOf f.jsonErr op r.body).bind Endpoint.holder? = some holder
  key : Lease.validateKey { ns := ns, name := name } = .ok ()
  touches : ∀ e ∈ evs, Touches (∀ e ∈ evs, Keyed e) { ns := ns, name := name } holder e.1
  admitted : Admitted f r.header ns holder

theorem serve_access (h : (serve f managed ctx r).Ran evs raw) (hne : evs ≠ []) :
    managed = true ∧ r.method = "POST" ∧ cleanPath r.path = r.path ∧
      ∃ ns name op holder, Access f r evs ns name op holder := by
  have hlease : ∀ h' values endpoint,
      findHandler (newMux managed) r.method r.path = .handler h' values →
      h' = .acquire ∨ h' = .renew ∨ h' = .release →
      (∀ op, (leasePattern op, h') ∈ leaseRoutes →
        endpointOf f.jsonErr op r.body = some endpoint) →
      (serveLease f ctx r values endpoint).Ran evs raw →
      managed = true ∧ r.method = "POST" ∧ cleanPath r.path = r.path ∧
        ∃ ns name op holder, Access f r evs ns name op holder := by
    intro h' values endpoint hfind hkind hbody hrun
    obtain ⟨hmanaged, hpost, hclean, ns, name, op, hsegs, hkey, hroute⟩ :=
      findHandler_lease hfind hkind
    obtain ⟨holder, hholder, hvalid, htouch, hadm⟩ := serveLease_access hrun hne
    rw [hkey] at hvalid htouch hadm
    refine ⟨hmanaged, hpost, hclean, ns, name, op, holder, hsegs, ?_, hvalid, htouch, hadm⟩
    rw [hbody op hroute, Option.bind_some, hholder]
  unfold serve at h
  split at h
  · exact absurd h.of_ret.1 hne
  · exact absurd h.of_ret.1 hne
  · exact absurd h.of_ret.1 hne
  · exact absurd h.of_ret.1 hne
  · exact absurd h.of_ret.1 hne
  · next values hfind =>
    refine hlease _ _ _ hfind (.inl rfl) (fun op hmem => ?_) h
    obtain rfl : op = "acquire" := by simpa [leaseRoutes, leasePattern] using hmem
    rfl
  · next values hfind =>
    refine hlease _ _ _ hfind (.inr (.inl rfl)) (fun op hmem => ?_) h
    obtain rfl : op = "renew" := by simpa [leaseRoutes, leasePattern] using hmem
    rfl
  · next values hfind =>
    refine hlease _ _ _ hfind (.inr (.inr rfl)) (fun op hmem => ?_) h
    obtain rfl : op = "release" := by simpa [leaseRoutes, leasePattern] using hmem
    rfl

theorem decodeJSON_ok {α : Type} {schema : Schema α} {zero a : α} {body : Upload}
    (h : decodeJSON jsonErr schema zero body = .ok a) :
    byteLength body.data ≤ maxLeaseBodyBytes ∧ body.broken = false ∧
      ∃ v rest, parse body.data = some (v, rest) ∧ decodeInto true schema zero v = some a ∧
        skipSpace rest = [] := by
  unfold decodeJSON at h
  split at h
  · cases h
  rename_i hsize
  split at h
  · cases h
  rename_i hbroken
  split at h
  · cases h
  rename_i v rest hparse
  split at h
  · cases h
  rename_i req hdec
  split at h
  · next hrest =>
    cases h
    exact ⟨Nat.not_lt.mp hsize, by simpa using hbroken, v, rest, hparse, hdec, hrest⟩
  · cases h

theorem decodeJSON_error {α : Type} {schema : Schema α} {zero : α} {body : Upload}
    (h : decodeJSON jsonErr schema zero body = .error resp) :
    resp.status ≠ 500 := by
  unfold decodeJSON at h
  split at h
  · cases h
    decide
  split at h
  · cases h
    decide
  split at h
  · cases h
    exact (by decide : (400 : Nat) ≠ 500)
  split at h
  · cases h
    exact (by decide : (400 : Nat) ≠ 500)
  split at h
  · cases h
  · cases h
    decide

/-- A body is refused, and not with 500, or it was read to its end and is
one value. -/
theorem endpointOf_cases {op : String} {body : Upload}
    (h : endpointOf jsonErr op body = some endpoint) :
    (∃ resp, endpoint.refused? = some resp ∧ endpoint.holder? = none ∧ resp.status ≠ 500) ∨
      endpoint.refused? = none ∧ byteLength body.data ≤ maxLeaseBodyBytes ∧ body.broken = false ∧
        ∃ v rest, parse body.data = some (v, rest) ∧ skipSpace rest = [] := by
  have hok : ∀ {α : Type} {schema : Schema α} {zero a : α},
      decodeJSON jsonErr schema zero body = .ok a →
      byteLength body.data ≤ maxLeaseBodyBytes ∧ body.broken = false ∧
        ∃ v rest, parse body.data = some (v, rest) ∧ skipSpace rest = [] := by
    intro α schema zero a hdec
    obtain ⟨hsize, hbroken, v, rest, hparse, -, hrest⟩ := decodeJSON_ok hdec
    exact ⟨hsize, hbroken, v, rest, hparse, hrest⟩
  unfold endpointOf at h
  split at h
  · cases h
    cases hdec : decodeJSON jsonErr AcquireRequest.schema AcquireRequest.zero body with
    | error resp => exact .inl ⟨resp, rfl, rfl, decodeJSON_error hdec⟩
    | ok a => exact .inr ⟨rfl, hok hdec⟩
  · split at h
    · cases h
      cases hdec : decodeJSON jsonErr RenewRequest.schema RenewRequest.zero body with
      | error resp => exact .inl ⟨resp, rfl, rfl, decodeJSON_error hdec⟩
      | ok a => exact .inr ⟨rfl, hok hdec⟩
    · split at h
      · cases h
        cases hdec : decodeJSON jsonErr ReleaseRequest.schema ReleaseRequest.zero body with
        | error resp => exact .inl ⟨resp, rfl, rfl, decodeJSON_error hdec⟩
        | ok a => exact .inr ⟨rfl, hok hdec⟩
      · cases h

/-- A request that reaches the store is a POST on a clean path of one of the
three endpoints, with a complete body of bounded size that is one JSON value
and names a holder. Its key is valid, and if the server authenticates, its
bearer token was accepted and its identity may act for that holder in that
namespace. All it does to the store is to read that lease and to write for
that holder or a free record; if the store returns records under their keys,
it writes that lease. -/
theorem store_access_admitted {f : Front} {managed : Bool} {ctx : Context} {r : RawRequest}
    {raw : RawResponse} (h : (serve f managed ctx r).Ran evs raw) (hne : evs ≠ []) :
    managed = true ∧ r.method = "POST" ∧ cleanPath r.path = r.path ∧
      byteLength r.body.data ≤ maxLeaseBodyBytes ∧ r.body.broken = false ∧
      (∃ v rest, parse r.body.data = some (v, rest) ∧ skipSpace rest = []) ∧
      ∃ ns name op holder,
        pathSegments r.path = ["v1alpha1", "namespaces", ns, "leases", name, op] ∧
        (endpointOf f.jsonErr op r.body).bind Endpoint.holder? = some holder ∧
        Lease.validateKey { ns := ns, name := name } = .ok () ∧
        Admitted f r.header ns holder ∧
        ∀ e ∈ evs, Touches (∀ e ∈ evs, Keyed e) { ns := ns, name := name } holder e.1 := by
  obtain ⟨hmanaged, hpost, hclean, ns, name, op, holder, hacc⟩ := serve_access h hne
  obtain ⟨endpoint, hendpoint, hholder⟩ := Option.bind_eq_some_iff.mp hacc.body
  obtain ⟨hsize, hbroken, hparse⟩ : byteLength r.body.data ≤ maxLeaseBodyBytes ∧
      r.body.broken = false ∧
      ∃ v rest, parse r.body.data = some (v, rest) ∧ skipSpace rest = [] := by
    rcases endpointOf_cases hendpoint with ⟨resp, -, hnone, -⟩ | ⟨-, hread⟩
    · rw [hnone] at hholder
      cases hholder
    · exact hread
  exact ⟨hmanaged, hpost, hclean, hsize, hbroken, hparse, ns, name, op, holder, hacc.segments,
    hacc.body, hacc.key, hacc.admitted, hacc.touches⟩

/-- A server with one API key, for the tenant `cell`. -/
def cellCredentials : Auth.StaticAuthenticator :=
  { keys := [("key", { holder := "cell", tenant := "cell", raw := "" })] }

def cellFront : Front :=
  { authn := some fun token => (cellCredentials.authenticate id token).map some
    authz := none
    jsonErr := fun _ => "invalid" }

/-- An acquire with that key. The space after the colon is allowed. -/
def cellRequest : RawRequest :=
  { method := "POST"
    path := "/v1alpha1/namespaces/prod/leases/nightly/acquire"
    header := { authorization := "Bearer key" }
    body := { data := "\x7b\"holder\": \"cell/a\",\"ttlSeconds\":5\x7d".toList } }

/-- The operations of its run on an empty store. -/
def cellEvents : List (Event StoreSig) :=
  [ ⟨.get { ns := "prod", name := "nightly" }, .error (.sentinel .notFound)⟩,
    ⟨.now, (0 : Int)⟩,
    ⟨.put 0 { key := { ns := "prod", name := "nightly" }, holder := "cell/a", ttl := 5 * second
              acquiredAt := 0, renewedAt := 0, fencingToken := 1, version := 0 }, .ok ()⟩]

theorem cellRequest_ran :
    ∃ raw, (serve cellFront true { ready := true, random := none } cellRequest).Ran
      cellEvents raw := by
  have hfeed : ((serve cellFront true { ready := true, random := none } cellRequest).feed
      cellEvents).isSome = true := by
    decide +kernel
  obtain ⟨raw, hraw⟩ := Option.isSome_iff_exists.mp hfeed
  exact ⟨raw, Prog.ran_of_feed hraw⟩

theorem store_access_cell : ∃ ns name op holder,
    pathSegments cellRequest.path = ["v1alpha1", "namespaces", ns, "leases", name, op] ∧
      Admitted cellFront cellRequest.header ns holder ∧
      ∀ e ∈ cellEvents, Touches (∀ e ∈ cellEvents, Keyed e) { ns := ns, name := name } holder e.1 := by
  obtain ⟨raw, hran⟩ := cellRequest_ran
  obtain ⟨-, -, -, -, -, -, ns, name, op, holder, hsegs, -, -, hadm, htouch⟩ :=
    store_access_admitted hran (List.cons_ne_nil _ _)
  exact ⟨ns, name, op, holder, hsegs, hadm, htouch⟩

/-! ## Tenants -/

/-- The two kinds of credentials a server can be set up with. -/
inductive Credentials where
  | static (hashToken : String → String) (a : Auth.StaticAuthenticator)
  | oidc (verify : String → Option Value) (a : Auth.OIDCAuthenticator)

namespace Credentials

def authenticator : Credentials → Authenticator
  | .static hashToken a => fun token => (a.authenticate hashToken token).map some
  | .oidc verify a => fun token => (a.authenticate verify token).map some

/-- The token stands for the tenant: its hash is in the file with it, or it
was verified, carries all required claims and names it in the tenant claim. -/
def Names : Credentials → String → String → Prop
  | .static hashToken a, token, tenant =>
    ∃ id, a.keys.lookup (hashToken token) = some id ∧ id.tenant = tenant
  | .oidc verify a, token, tenant =>
    ∃ v claims, verify token = some v ∧ Auth.claimsOf v = some claims ∧
      (∀ want ∈ a.requiredClaims, Auth.claimContains claims want.1 want.2 = true) ∧
      tenant = Auth.claimAsString claims a.tenantClaim

theorem names_of_authenticated {c : Credentials} {token : String} {id : Identity}
    (h : c.authenticator token = .ok (some id)) : c.Names token id.tenant := by
  cases c with
  | static hashToken a =>
    have hok : a.authenticate hashToken token = .ok id := by
      cases hauth : a.authenticate hashToken token <;> simp_all [authenticator, Except.map]
    unfold Auth.StaticAuthenticator.authenticate at hok
    split at hok
    · cases hok
    split at hok
    · cases hok
    rename_i id' hid
    split at hok
    · cases hok
    · cases hok
      exact ⟨id, hid, rfl⟩
  | oidc verify a =>
    have hok : a.authenticate verify token = .ok id := by
      cases hauth : a.authenticate verify token <;> simp_all [authenticator, Except.map]
    exact Auth.OIDCAuthenticator.authenticate_ok hok

end Credentials

/-- With credentials of either kind and the default policy, whatever a
request writes belongs to the tenant its token stands for: the holder in the
record is the tenant or lies below it, or the record is free. -/
theorem store_access_tenant {c : Credentials} {f : Front} (hauthn : f.authn = some c.authenticator)
    (hauthz : f.authz = none) {managed : Bool} {ctx : Context} {r : RawRequest} {raw : RawResponse}
    (h : (serve f managed ctx r).Ran evs raw) :
    ∀ v rec res, ⟨StoreOp.put v rec, res⟩ ∈ evs →
      ∃ token tenant, bearerToken r.header = some token ∧ c.Names token tenant ∧ tenant ≠ "" ∧
        '/' ∉ tenant.toList ∧
        (rec.holder = "" ∨ DefaultAuthorizer.owns tenant rec.holder = true) := by
  intro v rec res hmem
  obtain ⟨-, -, -, ns, name, op, holder, hacc⟩ := serve_access h (List.ne_nil_of_mem hmem)
  rcases hacc.admitted with hnone | ⟨authn, token, id, hsome, htoken, hok, hauth⟩
  · rw [hauthn] at hnone
    cases hnone
  rw [hauthn] at hsome
  cases hsome
  have hpolicy : f.authorizer = some DefaultAuthorizer.new := by
    simp [Front.authorizer, hauthn, hauthz]
  rw [hpolicy] at hauth
  obtain ⟨i, hi, hempty, hslash, howns⟩ := authorizeHolder_ok_iff.mp (authorize_default hauth)
  cases hi
  refine ⟨token, id.tenant, htoken, Credentials.names_of_authenticated hok, hempty, hslash, ?_⟩
  have htouch : Touches _ _ holder (.put v rec) := hacc.touches _ hmem
  rcases htouch.2 with hholder | hfree
  · exact .inr (hholder ▸ howns)
  · exact .inl hfree

theorem store_access_cell_tenant :
    ∃ token tenant, bearerToken cellRequest.header = some token ∧
      (Credentials.static id cellCredentials).Names token tenant := by
  obtain ⟨raw, hran⟩ := cellRequest_ran
  obtain ⟨token, tenant, htoken, hnames, -⟩ := store_access_tenant (f := cellFront)
    (c := .static id cellCredentials) rfl rfl hran _ _ _
    (List.mem_cons_of_mem _ (List.mem_cons_of_mem _ List.mem_cons_self))
  exact ⟨token, tenant, htoken, hnames⟩

/-! ## Request ids -/

theorem isIDChar_range {c : Char} (h : isIDChar c = true) :
    c.toNat = 45 ∨ c.toNat = 95 ∨ 48 ≤ c.toNat ∧ c.toNat ≤ 57 ∨ 65 ≤ c.toNat ∧ c.toNat ≤ 90 ∨
      97 ≤ c.toNat ∧ c.toNat ≤ 122 := by
  have hdash : c = '-' → c.toNat = 45 := fun heq => heq ▸ rfl
  have hscore : c = '_' → c.toNat = 95 := fun heq => heq ▸ rfl
  simp only [isIDChar, Bool.or_eq_true, Bool.and_eq_true, decide_eq_true_eq, beq_iff_eq,
    Char.le_def, UInt32.le_iff_toNat_le] at h
  rcases h with (((h | h) | h) | h) | h
  · exact .inr (.inr (.inr (.inr h)))
  · exact .inr (.inr (.inr (.inl h)))
  · exact .inr (.inr (.inl h))
  · exact .inl (hdash h)
  · exact .inr (.inl (hscore h))

theorem isSafeRequestID_ofList {cs : List Char} (hne : cs ≠ []) (hlen : cs.length ≤ 64)
    (h : ∀ c ∈ cs, isIDChar c = true) : isSafeRequestID (String.ofList cs) = true := by
  have hone : ∀ c ∈ cs, c.utf8Size = 1 := by
    intro c hc
    have hrange := isIDChar_range (h c hc)
    rw [Char.utf8Size_eq_one_iff, UInt32.le_iff_toNat_le]
    change c.toNat ≤ 127
    omega
  have hsize := Auth.utf8ByteSize_of_ascii hone
  have hempty : String.ofList cs ≠ "" := by
    intro heq
    rw [← String.toList_inj, String.toList_ofList] at heq
    exact hne heq
  simp only [isSafeRequestID, hempty, hsize, hlen, String.toList_ofList, ne_eq, not_false_eq_true,
    decide_true, Bool.true_and, List.all_eq_true]
  exact h

theorem isSafeRequestID_traceID {traceparent id : String} (h : traceID traceparent = some id) :
    isSafeRequestID id = true := by
  have hbyte : ∀ b : UInt8, ((48 ≤ b && b ≤ 57) || (97 ≤ b && b ≤ 102)) = true →
      b < 128 ∧ isIDChar (Char.ofNat b.toNat) = true :=
    byte_forall (by decide +kernel)
  unfold traceID at h
  dsimp only at h
  split at h
  · cases h
  split at h
  · cases h
  rename_i hhex
  cases h
  have hall : isHex (((bytesOf traceparent).drop 3).take 32) = true := by
    simpa using fun hfalse => hhex (.inr hfalse)
  simp only [isHex, Bool.and_eq_true, decide_eq_true_eq, List.all_eq_true] at hall
  rw [textOf_ascii fun b hb => (hbyte b (hall.2 b hb)).1]
  refine isSafeRequestID_ofList (by simpa using hall.1) ?_ fun c hc => ?_
  · rw [List.length_map]
    exact Nat.le_trans (List.length_take_le 32 _) (by decide)
  · obtain ⟨b, hb, rfl⟩ := List.mem_map.mp hc
    exact (hbyte b (hall.2 b hb)).2

theorem isSafeRequestID_randomID (random : Option (Vector UInt8 16)) :
    isSafeRequestID (randomID random) = true := by
  have hhex : ∀ d, isIDChar (Json.hexDigit d) = true := by
    intro d
    have hall : ∀ d < 16, isIDChar (if d < 10 then Char.ofNat ('0'.toNat + d)
        else Char.ofNat ('a'.toNat + (d - 10))) = true := by decide
    exact hall (d % 16) (Nat.mod_lt d (by decide))
  cases random with
  | none => decide
  | some bs =>
    have hlen : (bs.toList.flatMap fun b =>
        [Json.hexDigit (b.toNat / 16), Json.hexDigit b.toNat]).length = 32 := by
      simp [List.length_flatMap]
    refine isSafeRequestID_ofList ?_ (hlen ▸ by decide) fun c hc => ?_
    · intro hnil
      simp [hnil] at hlen
    · obtain ⟨b, -, hb⟩ := List.mem_flatMap.mp hc
      simp only [List.mem_cons, List.not_mem_nil, or_false] at hb
      rcases hb with rfl | rfl <;> exact hhex _

theorem isSafeRequestID_requestID (h : Header) (random : Option (Vector UInt8 16)) :
    isSafeRequestID (requestID h random) = true := by
  unfold requestID
  split
  · next hsafe => exact hsafe
  split
  · next id hid =>
    split at hid
    · cases hid
    · exact isSafeRequestID_traceID hid
  · exact isSafeRequestID_randomID random

theorem escape_idChar {c : Char} (h : isIDChar c = true) : escape c = [c] := by
  have hrange := isIDChar_range h
  have hne : ∀ d, isIDChar d = false → c ≠ d := by
    rintro d hd rfl
    rw [h] at hd
    cases hd
  have hlast : ¬ (c.toNat < 0x20 ∨ c = '<' ∨ c = '>' ∨ c = '&' ∨ c.toNat = 0x2028 ∨
      c.toNat = 0x2029) := by
    rintro (hlt | heq | heq | heq | heq | heq)
    · omega
    · exact hne _ (by decide) heq
    · exact hne _ (by decide) heq
    · exact hne _ (by decide) heq
    · omega
    · omega
  simp only [escape, hne '"' (by decide), hne '\\' (by decide), hne '\x08' (by decide),
    hne '\x0c' (by decide), hne '\n' (by decide), hne '\r' (by decide), hne '\t' (by decide), hlast,
    if_false]

/-- A safe id stands in a JSON text as it is. -/
theorem renderString_safe {id : String} (h : isSafeRequestID id = true) :
    renderString id = '"' :: (id.toList ++ ['"']) := by
  simp only [isSafeRequestID, Bool.and_eq_true, List.all_eq_true] at h
  have hflat : ∀ cs : List Char, (∀ c ∈ cs, isIDChar c = true) → cs.flatMap escape = cs := by
    intro cs hcs
    induction cs with
    | nil => rfl
    | cons c cs ih =>
      rw [List.flatMap_cons, escape_idChar (hcs c List.mem_cons_self),
        ih fun x hx => hcs x (List.mem_cons_of_mem c hx), List.singleton_append]
  rw [renderString, hflat _ h.2]

/-! ## Internal errors -/

theorem handle_generic (hbody : ∀ resp, req.endpoint.refused? = some resp → resp.status ≠ 500)
    (h : (handle authz req).Ran evs resp) : Generic resp := by
  rcases handle_cases True authz req with ⟨resp', heq, hresp⟩ | ⟨-, -, -, -, -, hgen⟩
  · rw [heq] at h
    obtain ⟨-, rfl⟩ := h.of_ret
    exact hresp.elim (fun hdec => generic_of_ne (hbody _ hdec)) Refused.generic
  · exact hgen evs resp h

theorem endpointOf_refused (op : String) {body : Upload}
    (h : endpointOf jsonErr op body = some endpoint) :
    ∀ resp, endpoint.refused? = some resp → resp.status ≠ 500 := by
  intro resp hresp
  rcases endpointOf_cases h with ⟨resp', hresp', -, hne⟩ | ⟨hnone, -⟩
  · exact Option.some.inj (hresp'.symm.trans hresp) ▸ hne
  · rw [hnone] at hresp
    cases hresp

theorem serveLease_generic (hbody : ∀ resp, endpoint.refused? = some resp → resp.status ≠ 500)
    (h : (serveLease f ctx r values endpoint).Ran evs raw) :
    ∃ resp, Generic resp ∧ raw = writeResponse (requestID r.header ctx.random) resp := by
  rcases serveLease_ran h with ⟨msg, -, hraw⟩ | ⟨id, resp, -, hhandle, hraw⟩
  · exact ⟨writeError 401 msg, generic_of_ne (by simp [writeError]), hraw⟩
  · exact ⟨resp, handle_generic hbody hhandle, hraw⟩

/-- The text of the generic response. -/
theorem body_generic {id : String} (h : isSafeRequestID id = true) :
    (writeResponse id (writeError 500 "internal error")).body =
      "\x7b\"error\":\"internal error\",\"requestId\":\"".toList ++ id.toList ++
        "\"\x7d\n".toList := by
  have hne : id ≠ "" := by
    rintro rfl
    exact absurd h (by decide)
  have herror : renderString "error" = "\"error\"".toList := by decide
  have hmsg : renderString "internal error" = "\"internal error\"".toList := by decide
  have hid : renderString "requestId" = "\"requestId\"".toList := by decide
  simp [writeResponse, writeError, writeJSON, marshalError, omitEmpty, hne, Json.render,
    renderFields, herror, hmsg, hid, renderString_safe h]

/-- A response with 500 says that there was an error and which request it
was, and nothing else, whatever the store's error was. The id is one that
can stand in a log line: it is what the client sent only if that is safe. -/
theorem internal_error_generic {f : Front} {managed : Bool} {ctx : Context} {r : RawRequest}
    {raw : RawResponse} (h : (serve f managed ctx r).Ran evs raw) (hstatus : raw.status = 500) :
    isSafeRequestID (requestID r.header ctx.random) = true ∧
      raw.body = "\x7b\"error\":\"internal error\",\"requestId\":\"".toList ++
        (requestID r.header ctx.random).toList ++ "\"\x7d\n".toList := by
  have hsafe := isSafeRequestID_requestID r.header ctx.random
  refine ⟨hsafe, ?_⟩
  have hlease : ∀ values endpoint, (∀ resp, endpoint.refused? = some resp → resp.status ≠ 500) →
      (serveLease f ctx r values endpoint).Ran evs raw →
      raw.body = "\x7b\"error\":\"internal error\",\"requestId\":\"".toList ++
        (requestID r.header ctx.random).toList ++ "\"\x7d\n".toList := by
    intro values endpoint hbody hrun
    obtain ⟨resp, hgen, rfl⟩ := serveLease_generic hbody hrun
    rw [status_writeResponse] at hstatus
    rw [hgen hstatus, body_generic hsafe]
  have hlost : ∀ {resp : RawResponse}, (Prog.ret resp : Prog StoreSig RawResponse).Ran evs raw →
      resp.status ≠ 500 → False := by
    intro resp hrun hne
    obtain ⟨-, rfl⟩ := hrun.of_ret
    exact hne hstatus
  unfold serve at h
  split at h
  · exact (hlost h (by simp)).elim
  · exact (hlost h (by decide)).elim
  · exact (hlost h (by simp [writePlain])).elim
  · exact (hlost h (by decide)).elim
  · exact (hlost h (by split <;> decide)).elim
  · exact hlease _ _ (endpointOf_refused "acquire" rfl) h
  · exact hlease _ _ (endpointOf_refused "renew" rfl) h
  · exact hlease _ _ (endpointOf_refused "release" rfl) h

/-- A backend that cannot be reached, with no random bytes at hand. -/
theorem internal_error_unreachable :
    ∃ raw, (serve cellFront true { ready := true, random := none } cellRequest).Ran
        [⟨.get { ns := "prod", name := "nightly" }, .error (.new "dial tcp 10.0.0.7:5432")⟩] raw ∧
      raw.body =
        "\x7b\"error\":\"internal error\",\"requestId\":\"unknown\"\x7d\n".toList := by
  have hfeed : ((serve cellFront true { ready := true, random := none } cellRequest).feed
      [⟨.get { ns := "prod", name := "nightly" }, .error (.new "dial tcp 10.0.0.7:5432")⟩]).map
        RawResponse.status = some 500 := by
    decide +kernel
  obtain ⟨raw, hraw, hstatus⟩ := Option.map_eq_some_iff.mp hfeed
  have hran := Prog.ran_of_feed hraw
  have hbody := (internal_error_generic hran hstatus).2
  have hid : requestID cellRequest.header none = "unknown" := by decide
  rw [hid] at hbody
  exact ⟨raw, hran, hbody.trans (by decide)⟩

end Berth.Api
