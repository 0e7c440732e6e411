/-
Berth.Client.WireTheorems — the client and the server on the wire.

A call of the client is a path, a header and a text; the server cuts the
path, reads the header and decodes the text. `call_arrives` says that what
the server then handles is the call that was made, for every lease whose
namespace and name can stand in a path, and that no other lease is touched
for the rest. `call_answered` adds the way back.
-/
import Berth.Client.Wire

namespace Berth.Client

open Berth.Acquire (trimSpace)
open Berth.Api Berth.Http Berth.Interleave Berth.Json Berth.Lease Berth.Tenant

variable {c : LeaseCall} {ns name : String} {apiKey : String} {ctx : Context} {key : Key}
variable {f : Front} {jsonErr : List Char → String}
/-! ## Bodies of requests -/

theorem literal_formatInt (v : Int) : Literal (formatInt v) := by
  have h : Literal (String.ofList (integerText (decide (v < 0)) (Nat.toDigits 10 v.natAbs))) :=
    literal_integer _ Nat.toDigits_ne_nil (fun _ hc => isDigit_of_mem_toDigits hc)
      (toDigits_noLeadingZero _)
  have htext : formatInt v =
      String.ofList (integerText (decide (v < 0)) (Nat.toDigits 10 v.natAbs)) := by
    by_cases hneg : v < 0 <;> simp [formatInt, integerText, hneg]
  rw [htext]
  exact h

theorem written_body (c : LeaseCall) : Written c.body := by
  cases c <;>
    simp only [LeaseCall.body] <;>
    refine .obj fun f hf => ?_ <;>
    simp only [List.mem_cons, List.not_mem_nil, or_false] at hf
  · rcases hf with rfl | rfl
    · exact .str _
    · exact .num (literal_formatInt _)
  · rcases hf with rfl | rfl | rfl
    · exact .num (literal_formatInt _)
    · exact .str _
    · exact .num (literal_formatInt _)
  · rcases hf with rfl | rfl
    · exact .num (literal_formatInt _)
    · exact .str _

/-- What the server makes of the body, at the endpoint it is meant for. -/
def decoded (jsonErr : List Char → String) (c : LeaseCall) (body : Upload) : Endpoint :=
  match c with
  | .acquire _ _ => .acquire (decodeJSON jsonErr AcquireRequest.schema AcquireRequest.zero body)
  | .renew _ _ _ => .renew (decodeJSON jsonErr RenewRequest.schema RenewRequest.zero body)
  | .release _ _ => .release (decodeJSON jsonErr ReleaseRequest.schema ReleaseRequest.zero body)

theorem decodeJSON_render {α : Type} {schema : Schema α} {zero a : α} {v : Value} (hw : Written v)
    (hsize : byteLength (Json.render v) ≤ maxLeaseBodyBytes)
    (h : decodeInto true schema zero v = some a) :
    decodeJSON jsonErr schema zero { data := Json.render v } = .ok a := by
  have hparse : parse (Json.render v) = some (v, []) := by
    simpa using parse_render hw ends_nil
  simp [decodeJSON, Nat.not_lt.mpr hsize, hparse, h, skipSpace]

theorem decoded_body (hrange : c.InRange)
    (hsize : byteLength (Json.render c.body) ≤ maxLeaseBodyBytes) :
    decoded jsonErr c { data := Json.render c.body } = c.endpoint := by
  cases c with
  | acquire holder ttl =>
    have httl := parseInt32_formatInt (toInt32_range (ttl.tdiv second)).1
      (toInt32_range (ttl.tdiv second)).2
    simp only [decoded, LeaseCall.endpoint, acquireEndpoint, Endpoint.acquire.injEq]
    refine decodeJSON_render (written_body _) hsize ?_
    simp [LeaseCall.body, decodeInto, decodeField, Schema.field?, AcquireRequest.schema,
      AcquireRequest.zero, field, readString, readInt32, readNumber, httl, List.lookup_cons]
  | renew holder token ttl =>
    have httl := parseInt32_formatInt (toInt32_range (ttl.tdiv second)).1
      (toInt32_range (ttl.tdiv second)).2
    have htoken := parseInt32_formatInt hrange.1 hrange.2
    simp only [decoded, LeaseCall.endpoint, renewEndpoint, Endpoint.renew.injEq]
    refine decodeJSON_render (written_body _) hsize ?_
    simp [LeaseCall.body, decodeInto, decodeField, Schema.field?, RenewRequest.schema,
      RenewRequest.zero, field, readString, readInt32, readNumber, httl, htoken, List.lookup_cons]
  | release holder token =>
    have htoken := parseInt32_formatInt hrange.1 hrange.2
    simp only [decoded, LeaseCall.endpoint, releaseEndpoint, Endpoint.release.injEq]
    refine decodeJSON_render (written_body _) hsize ?_
    simp [LeaseCall.body, decodeInto, decodeField, Schema.field?, ReleaseRequest.schema,
      ReleaseRequest.zero, field, readString, readInt32, readNumber, htoken, List.lookup_cons]

/-! ## Paths of requests -/

/-- A name that survives cleaning as a segment of its own. -/
def InPath (s : String) : Prop := s ≠ "" ∧ s ≠ "." ∧ s ≠ ".."

/-- A name that the multiplexer hands over. -/
def Addressable (s : String) : Prop := InPath s ∧ s ≠ "/"

instance (s : String) : Decidable (Addressable s) :=
  inferInstanceAs (Decidable ((s ≠ "" ∧ s ≠ "." ∧ s ≠ "..") ∧ s ≠ "/"))

theorem clean_pathEscape {s : String} : Clean (pathEscape s) ↔ InPath s := by
  -- what needs no escape is escaped to itself
  have hplain : ∀ {t cs}, pathEscape t = cs → (pathEscape s = cs ↔ s = t) := by
    rintro t cs rfl
    exact ⟨pathEscape_injective, congrArg pathEscape⟩
  rw [Clean, InPath, ne_eq, ne_eq, ne_eq, hplain (t := "") (by decide),
    hplain (t := ".") (by decide), hplain (t := "..") (by decide)]

theorem op_segment (c : LeaseCall) : '/' ∉ c.op.toList ∧ Clean c.op.toList := by
  cases c <;> rw [LeaseCall.op] <;> decide

theorem slash_not_mem_segments :
    ∀ e ∈ leaseSegments ns name c.op, '/' ∉ e := by
  intro e he
  simp only [leaseSegments, List.mem_cons, List.not_mem_nil, or_false] at he
  rcases he with rfl | rfl | rfl | rfl | rfl | rfl
  · decide
  · decide
  · exact slash_not_mem_pathEscape ns
  · decide
  · exact slash_not_mem_pathEscape name
  · exact (op_segment c).1

theorem cleanPath_leasePath :
    cleanPath (leasePath ns name c.op) = leasePath ns name c.op ↔ InPath ns ∧ InPath name := by
  have hlast : (leaseSegments ns name c.op).getLast (by simp [leaseSegments]) ≠ [] :=
    (op_segment c).2.1
  rw [leasePath, cleanPath_eq_self slash_not_mem_segments (by simp [leaseSegments]) hlast]
  have hlits : Clean "v1alpha1".toList ∧ Clean "namespaces".toList ∧ Clean "leases".toList := by
    decide
  have hop := (op_segment c).2
  simp only [leaseSegments, List.mem_cons, List.not_mem_nil, or_false, forall_eq_or_imp, forall_eq,
    hlits, hop, clean_pathEscape, true_and, and_true]

theorem pathSegments_leasePath (hns : InPath ns) (hname : InPath name) :
    pathSegments (leasePath ns name c.op) =
      ["v1alpha1", "namespaces", ns, "leases", name, c.op] := by
  have hseg : ∀ s, InPath s →
      (if pathEscape s = [] then "/" else pathUnescape (pathEscape s)) = s := by
    intro s hs
    rw [if_neg (clean_pathEscape.mpr hs).1, pathUnescape_pathEscape]
  have hlit :
      (if "v1alpha1".toList = [] then "/" else pathUnescape "v1alpha1".toList) = "v1alpha1" ∧
      (if "namespaces".toList = [] then "/" else pathUnescape "namespaces".toList) = "namespaces" ∧
      (if "leases".toList = [] then "/" else pathUnescape "leases".toList) = "leases" := by
    decide
  have hop : (if c.op.toList = [] then "/" else pathUnescape c.op.toList) = c.op := by
    cases c <;> rw [LeaseCall.op] <;> decide
  rw [pathSegments, leasePath, String.toList_ofList, splitOn_render slash_not_mem_segments]
  simp only [List.tail_cons, leaseSegments, List.map_cons, List.map_nil, hseg ns hns,
    hseg name hname, hlit, hop]

/-- The handler a call is meant for. -/
def LeaseCall.handler : LeaseCall → Handler
  | .acquire _ _ => .acquire
  | .renew _ _ _ => .renew
  | .release _ _ => .release

/-- A pattern takes the paths with its own last segment. -/
theorem matchPath_lease (op op' ns name : String) :
    matchPath (leasePattern op).segments ["v1alpha1", "namespaces", ns, "leases", name, op'] =
      if op = op' ∧ ns ≠ "/" ∧ name ≠ "/" then some [("namespace", ns), ("name", name)]
      else none := by
  by_cases hop : op = op' <;> by_cases hns : ns = "/" <;> by_cases hname : name = "/" <;>
    simp [leasePattern, matchPath, hop, hns, hname]

theorem findMethod_lease (ns name : String) (c : LeaseCall) :
    findMethod (newMux true) ["v1alpha1", "namespaces", ns, "leases", name, c.op] "POST" =
      if ns ≠ "/" ∧ name ≠ "/" then some (c.handler, [("namespace", ns), ("name", name)])
      else none := by
  have hpost : ∀ op, (leasePattern op).method = "POST" := fun _ => rfl
  by_cases hne : ns ≠ "/" ∧ name ≠ "/" <;> cases c <;>
    simp [findMethod, newMux, leaseRoutes, hpost, matchPath_lease, hne, LeaseCall.op,
      LeaseCall.handler]

theorem allowedMethods_lease (c : LeaseCall) (h : ¬ (ns ≠ "/" ∧ name ≠ "/")) :
    allowedMethods (newMux true) ["v1alpha1", "namespaces", ns, "leases", name, c.op] = [] := by
  simp [allowedMethods, newMux, leaseRoutes, matchPath_lease, h, matchPath]

/-- Two addressable names: the handler of the call, with both of them. -/
theorem findHandler_found (c : LeaseCall) (hns : Addressable ns) (hname : Addressable name) :
    findHandler (newMux true) "POST" (leasePath ns name c.op) =
      .handler c.handler [("namespace", ns), ("name", name)] := by
  have hclean := cleanPath_leasePath (c := c).mpr ⟨hns.1, hname.1⟩
  simp [findHandler, hclean, pathSegments_leasePath hns.1 hname.1, triedMethods, findMethod_lease,
    hns.2, hname.2]

/-- Otherwise the path is not clean, or nothing matches. -/
theorem findHandler_lost (c : LeaseCall) (h : ¬ (Addressable ns ∧ Addressable name)) :
    findHandler (newMux true) "POST" (leasePath ns name c.op) = .notFound ∨
      ∃ location, findHandler (newMux true) "POST" (leasePath ns name c.op) =
        .redirect location := by
  by_cases hin : InPath ns ∧ InPath name
  · have hclean := cleanPath_leasePath (c := c).mpr hin
    have hslash : ¬ (ns ≠ "/" ∧ name ≠ "/") :=
      fun hne => h ⟨⟨hin.1, hne.1⟩, ⟨hin.2, hne.2⟩⟩
    refine .inl ?_
    simp [findHandler, hclean, pathSegments_leasePath hin.1 hin.2, triedMethods, findMethod_lease,
      allowedMethods_lease c hslash, hslash]
  · have hclean : cleanPath (leasePath ns name c.op) ≠ leasePath ns name c.op :=
      fun heq => hin (cleanPath_leasePath.mp heq)
    exact .inr ⟨escapePath (cleanPath (leasePath ns name c.op)), by simp [findHandler, hclean]⟩

/-! ## Requests -/

/-- Who the server takes the client for. -/
def identify (f : Front) (apiKey : String) : Except Response (Option Identity) :=
  match f.authn with
  | none => .ok none
  | some authn =>
    if apiKey = "" then .error (writeError 401 "missing or malformed Authorization header")
    else
      match authn apiKey with
      | .ok (some id) => .ok (some id)
      | _ => .error (writeError 401 "unauthorized")

/-- The call as the handlers see it. -/
def dispatch (f : Front) (apiKey : String) (key : Key) (c : LeaseCall) : Prog StoreSig Response :=
  match identify f apiKey with
  | .error resp => .ret resp
  | .ok id => handle f.authorizer { identity := id, key := key, endpoint := c.endpoint }

theorem bearerToken_postRequest (h : trimSpace apiKey = apiKey) :
    bearerToken (postRequest apiKey key c).header = if apiKey = "" then none else some apiKey := by
  by_cases hempty : apiKey = ""
  · simp [postRequest, bearerToken, hempty]
  have htext : ("Bearer " ++ apiKey).toList = "Bearer ".toList ++ apiKey.toList :=
    String.toList_append
  simp only [postRequest, bearerToken, hempty, if_false, htext, List.isPrefixOf_iff_prefix,
    List.prefix_append, if_true, List.drop_left, String.ofList_toList, h]

theorem serve_found (hns : Addressable key.ns) (hname : Addressable key.name) :
    serve f true ctx (postRequest apiKey key c) =
      serveLease f ctx (postRequest apiKey key c) [("namespace", key.ns), ("name", key.name)]
        (decoded f.jsonErr c { data := Json.render c.body }) := by
  have hpath : findHandler (newMux true) (postRequest apiKey key c).method
      (postRequest apiKey key c).path =
        .handler c.handler [("namespace", key.ns), ("name", key.name)] :=
    findHandler_found c hns hname
  unfold serve
  rw [hpath]
  cases c <;> rfl

theorem serve_addressable (hns : Addressable key.ns) (hname : Addressable key.name)
    (htrim : trimSpace apiKey = apiKey) (hrange : c.InRange)
    (hsize : byteLength (Json.render c.body) ≤ maxLeaseBodyBytes) :
    serve f true ctx (postRequest apiKey key c) = (dispatch f apiKey key c).bind fun resp =>
      .ret (writeResponse (randomID ctx.random) resp) := by
  have hid : requestID (postRequest apiKey key c).header ctx.random = randomID ctx.random := by
    simp [requestID, postRequest, isSafeRequestID]
  have hkey : routeKey [("namespace", key.ns), ("name", key.name)] = key := rfl
  rw [serve_found hns hname, decoded_body hrange hsize]
  simp only [serveLease, hid, hkey, dispatch, identify, authenticate, bearerToken_postRequest htrim]
  cases f.authn with
  | none => rfl
  | some authn =>
    by_cases hempty : apiKey = ""
    · simp [hempty]
    simp only [hempty, if_false]
    cases hauth : authn apiKey with
    | error e => simp
    | ok id => cases id <;> simp

theorem serve_lost (h : ¬ (Addressable key.ns ∧ Addressable key.name)) :
    ∃ resp, serve f true ctx (postRequest apiKey key c) = .ret resp ∧
      (resp.status = 307 ∨ resp.status = 404) := by
  have hpath : findHandler (newMux true) (postRequest apiKey key c).method
        (postRequest apiKey key c).path = .notFound ∨
      ∃ location, findHandler (newMux true) (postRequest apiKey key c).method
        (postRequest apiKey key c).path = .redirect location :=
    findHandler_lost c h
  unfold serve
  rcases hpath with hpath | ⟨location, hpath⟩
  · exact ⟨writePlain 404 "404 page not found\n", by rw [hpath]; rfl, .inr rfl⟩
  · exact ⟨{ status := 307, location := some location }, by rw [hpath]; rfl, .inl rfl⟩

/-- A call of the client is what the server handles: the lease, the holder,
the token and the time to live are those of the call, under the identity of
the key that was sent. A namespace or name that cannot stand in a path ends
the request before any handler, whatever the path is cleaned to. -/
theorem call_arrives {f : Front} {ctx : Context} {key : Key} {c : LeaseCall} {apiKey : String}
    (htrim : trimSpace apiKey = apiKey) (hrange : c.InRange)
    (hsize : byteLength (Json.render c.body) ≤ maxLeaseBodyBytes) :
    (Addressable key.ns ∧ Addressable key.name →
      serve f true ctx (postRequest apiKey key c) = (dispatch f apiKey key c).bind fun resp =>
        .ret (writeResponse (randomID ctx.random) resp)) ∧
    (¬ (Addressable key.ns ∧ Addressable key.name) →
      ∃ resp, serve f true ctx (postRequest apiKey key c) = .ret resp ∧
        (resp.status = 307 ∨ resp.status = 404)) :=
  ⟨fun h => serve_addressable h.1 h.2 htrim hrange hsize, serve_lost⟩

/-- A server without authentication. -/
def openFront : Front := { authn := none, authz := none, jsonErr := fun _ => "invalid" }

/-- A renewal arrives; the same for a namespace of two dots is lost. -/
theorem call_arrives_renew :
    serve openFront true { ready := true, random := none }
        (postRequest "" { ns := "prod", name := "nightly/job" } (.renew "cell" 7 (30 * second))) =
      (dispatch openFront "" { ns := "prod", name := "nightly/job" }
        (.renew "cell" 7 (30 * second))).bind (fun resp => .ret (writeResponse "unknown" resp)) ∧
    ∃ resp, serve openFront true { ready := true, random := none }
        (postRequest "" { ns := "..", name := "nightly" } (.renew "cell" 7 (30 * second))) =
      .ret resp ∧ (resp.status = 307 ∨ resp.status = 404) :=
  ⟨(call_arrives (by decide) (by unfold LeaseCall.InRange; decide)
      (by decide)).1 (by decide),
    (call_arrives (by decide) (by unfold LeaseCall.InRange; decide)
      (by decide)).2 (by decide)⟩

/-! ## Responses -/

/-- A result the server can write down. -/
structure Sendable (r : AcquireResult) : Prop where
  token : -maxInt32 - 1 ≤ r.fencingToken ∧ r.fencingToken ≤ maxInt32
  expiresAt : 0 ≤ (Calendar.date r.expiresAt).year ∧ (Calendar.date r.expiresAt).year ≤ 9999
  acquiredAt : 0 ≤ (Calendar.date r.acquiredAt).year ∧ (Calendar.date r.acquiredAt).year ≤ 9999

/-- Two readings of one answer: the same result, or errors that the caller
does not tell apart but by their texts. -/
def SameAnswer {α : Type} : Except Err α → Except Err α → Prop
  | .ok r, .ok r' => r = r'
  | .error e, .error e' => e.is .clientConflict = e'.is .clientConflict
  | _, _ => False

theorem readTime_marshalTime {t : Time}
    (h : 0 ≤ (Calendar.date t).year ∧ (Calendar.date t).year ≤ 9999) :
    ∃ s, marshalTime t = some (.str s) ∧ readTime (.str s) = some t := by
  refine ⟨String.ofList (Calendar.format jsonTime t), by simp [marshalTime, h], ?_⟩
  have hzero : Calendar.dropped jsonTime t = 0 := by simp [Calendar.dropped, jsonTime, Nat.mod_one]
  simp [readTime, Calendar.parse_format h.1 h.2, hzero]

theorem written_omitEmpty {key s : String} : ∀ f ∈ omitEmpty key s, Written f.2 := by
  intro f hf
  unfold omitEmpty at hf
  split at hf
  · cases hf
  · rw [List.mem_singleton.mp hf]
    exact .str s

theorem written_omitZero {key : String} {v : Int} : ∀ f ∈ omitZero key v, Written f.2 := by
  intro f hf
  unfold omitZero at hf
  split at hf
  · cases hf
  · rw [List.mem_singleton.mp hf]
    exact .num (literal_formatInt v)

/-- The text of a result is read back as that result. -/
theorem decode_marshalLease {r : AcquireResult} (h : Sendable r) :
    ∃ v, marshalLease r = some v ∧ Written v ∧
      decodeInto false resultSchema { acquired := false } v = some r := by
  obtain ⟨expires, hexp, hexp'⟩ := readTime_marshalTime h.expiresAt
  obtain ⟨acquired, hacq, hacq'⟩ := readTime_marshalTime h.acquiredAt
  have htoken := parseInt32_formatInt h.token.1 h.token.2
  refine ⟨_, by simp only [marshalLease, hexp, hacq]; rfl, ?_, ?_⟩
  · refine .obj fun f hf => ?_
    simp only [List.mem_cons, List.mem_append, List.not_mem_nil, or_false] at hf
    rcases hf with rfl | (hf | hf) | rfl | rfl
    · exact .bool _
    · exact written_omitEmpty f hf
    · exact written_omitZero f hf
    · exact .str expires
    · exact .str acquired
  · obtain ⟨got, holder, token, expiresAt, acquiredAt⟩ := r
    by_cases hholder : holder = "" <;> by_cases hzero : token = 0 <;>
      simp_all [decodeInto, decodeField, Schema.field?, resultSchema, List.lookup_cons, field,
        readBool, readString, readInt32, readNumber, omitEmpty, omitZero]

theorem written_marshalError (msg id : String) : Written (marshalError msg id) := by
  refine .obj fun f hf => ?_
  rcases List.mem_cons.mp hf with rfl | hf
  · exact .str msg
  · exact written_omitEmpty f hf

/-- None of the fields of an error is one of a result. -/
theorem decode_marshalError (msg id : String) :
    decodeInto false resultSchema { acquired := false } (marshalError msg id) =
      some { acquired := false } := by
  have herror : Schema.field? resultSchema "error" = none := by
    simp [Schema.field?, resultSchema, List.lookup_cons]
    decide
  have hid : Schema.field? resultSchema "requestId" = none := by
    simp [Schema.field?, resultSchema, List.lookup_cons]
    decide
  by_cases hempty : id = "" <;>
    simp [marshalError, omitEmpty, hempty, decodeInto, decodeField, herror, hid]

/-- A status that asks for the body: it is read as the body that was
written. -/
theorem decodeRaw_body {id : String} {resp : Response}
    (hraw : checkRaw (writeResponse id resp) = .ok (some (writeResponse id resp).body))
    (hstatus : checkStatus resp = .ok (some resp.body)) (h : ∀ r, resp.body = .lease r → Sendable r)
    :
    SameAnswer (decodeRaw jsonErr (writeResponse id resp)) (decode resp) := by
  have hread : ∀ v r, Written v → decodeInto false resultSchema { acquired := false } v = some r →
      (writeResponse id resp).body = Json.render v ++ ['\n'] →
      decodeRaw jsonErr (writeResponse id resp) = .ok r := by
    intro v r hw hdec hbody
    have hends : Ends ['\n'] := ends_cons (by decide) (by decide)
    have hparse := parse_render hw hends
    simp only [decodeRaw, hraw, hbody, hparse, Option.bind_some, hdec]
  cases hb : resp.body with
  | none =>
    have hempty : (writeResponse id resp).body = [] := by simp [writeResponse, hb]
    simp [decodeRaw, hraw, hempty, decode, hstatus, hb, parse, value?, skipSpace, SameAnswer,
      Err.is]
  | lease r =>
    obtain ⟨v, hv, hw, hdec⟩ := decode_marshalLease (h r hb)
    have hbody : (writeResponse id resp).body = Json.render v ++ ['\n'] := by
      simp [writeResponse, hb, hv, writeJSON]
    simp [hread v r hw hdec hbody, decode, hstatus, hb, SameAnswer]
  | error msg =>
    have hbody : (writeResponse id resp).body =
        Json.render (marshalError msg (if resp.status = 500 then id else "")) ++ ['\n'] := by
      simp [writeResponse, hb, writeJSON]
    rw [hread _ _ (written_marshalError msg _) (decode_marshalError msg _) hbody]
    simp [decode, hstatus, hb, SameAnswer]

/-- What the client makes of the text of a response is what it would make
of the response. -/
theorem decodeRaw_writeResponse {id : String} {resp : Response}
    (h : ∀ r, resp.body = .lease r → Sendable r) :
    SameAnswer (decodeRaw jsonErr (writeResponse id resp)) (decode resp) ∧
      SameAnswer (decodeRawRelease (writeResponse id resp)) (decodeRelease resp) := by
  have hstatus := status_writeResponse id resp
  by_cases h409 : resp.status = 409
  · simp [decodeRaw, decodeRawRelease, decode, decodeRelease, checkRaw, checkStatus, hstatus, h409,
      SameAnswer, Except.map]
  by_cases h204 : resp.status = 204
  · simp [decodeRaw, decodeRawRelease, decode, decodeRelease, checkRaw, checkStatus, hstatus, h204,
      SameAnswer, Except.map]
  by_cases h400 : 400 ≤ resp.status
  · simp [decodeRaw, decodeRawRelease, decode, decodeRelease, checkRaw, checkStatus, hstatus, h409,
      h204, h400, SameAnswer, Except.map, Err.is]
  have hraw : checkRaw (writeResponse id resp) = .ok (some (writeResponse id resp).body) := by
    simp [checkRaw, hstatus, h409, h204, h400]
  have hresp : checkStatus resp = .ok (some resp.body) := by simp [checkStatus, h409, h204, h400]
  refine ⟨decodeRaw_body hraw hresp h, ?_⟩
  simp [decodeRawRelease, decodeRelease, hraw, hresp, SameAnswer, Except.map]

/-- A call over the wire is a call: whatever the store answers meanwhile,
the client ends up with what the handlers' response means to it, if the
response is one that can be written down. -/
theorem call_answered (jsonErr : List Char → String) {f : Front} {ctx : Context} {key : Key}
    {c : LeaseCall} {apiKey : String} {evs : List (Event StoreSig)} {raw : RawResponse}
    (hns : Addressable key.ns) (hname : Addressable key.name)
    (htrim : trimSpace apiKey = apiKey) (hrange : c.InRange)
    (hsize : byteLength (Json.render c.body) ≤ maxLeaseBodyBytes)
    (h : (serve f true ctx (postRequest apiKey key c)).Ran evs raw) :
    ∃ resp, (dispatch f apiKey key c).Ran evs resp ∧
      ((∀ r, resp.body = .lease r → Sendable r) →
        SameAnswer (decodeRaw jsonErr raw) (decode resp) ∧
          SameAnswer (decodeRawRelease raw) (decodeRelease resp)) := by
  rw [serve_addressable hns hname htrim hrange hsize] at h
  obtain ⟨evs₁, evs₂, resp, rfl, hrun, hret⟩ := Prog.Ran.of_bind h
  obtain ⟨rfl, rfl⟩ := hret.of_ret
  refine ⟨resp, by rwa [List.append_nil], fun hsend => decodeRaw_writeResponse hsend⟩

/-- An acquisition on an empty store. -/
def acquiredEvents : List (Event StoreSig) :=
  [⟨.get { ns := "prod", name := "nightly" }, .error (.sentinel .notFound)⟩, ⟨.now, (0 : Int)⟩,
    ⟨.put 0 { key := { ns := "prod", name := "nightly" }, holder := "cell", ttl := second
              acquiredAt := 0, renewedAt := 0, fencingToken := 1, version := 0 }, .ok ()⟩]

/-- The handler's response to it. -/
def acquiredResponse : Response :=
  ⟨200, .lease { acquired := true, holder := "cell", fencingToken := 1, expiresAt := second
                 acquiredAt := 0 }⟩

theorem call_answered_acquire :
    ∃ raw,
      (serve openFront true { ready := true, random := none }
        (postRequest "" { ns := "prod", name := "nightly" } (.acquire "cell" second))).Ran
          acquiredEvents raw ∧
      (dispatch openFront "" { ns := "prod", name := "nightly" } (.acquire "cell" second)).Ran
        acquiredEvents acquiredResponse ∧
      SameAnswer (decodeRaw (fun _ => "EOF") raw) (decode acquiredResponse) ∧
      SameAnswer (decodeRawRelease raw) (decodeRelease acquiredResponse) := by
  have hfeed : ((serve openFront true { ready := true, random := none }
      (postRequest "" { ns := "prod", name := "nightly" } (.acquire "cell" second))).feed
        acquiredEvents).isSome = true := by decide
  have hdispatch : (dispatch openFront "" { ns := "prod", name := "nightly" }
      (.acquire "cell" second)).Ran acquiredEvents acquiredResponse :=
    Prog.ran_of_feed (by decide)
  obtain ⟨raw, hraw⟩ := Option.isSome_iff_exists.mp hfeed
  have hran := Prog.ran_of_feed hraw
  obtain ⟨resp, hresp, hsame⟩ := call_answered (fun _ => "EOF") (by decide)
    (by decide) (by decide) (by exact trivial) (by decide) hran
  obtain rfl := hresp.unique hdispatch
  refine ⟨raw, hran, hdispatch, hsame fun r hr => ?_⟩
  cases hr
  exact ⟨by decide, by decide, by decide⟩

end Berth.Client
