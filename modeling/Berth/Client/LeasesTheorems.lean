/-
Berth.Client.LeasesTheorems — what a client may conclude from an answer.

`Sent p id req τ` says that request number `id` of the server is `req` and
arrived at `τ` or later. It stays true whatever happens next, so a client
that sent a request at `τ` still has it when the answer comes. A positive
answer to an Acquire or Renew then names a write of the log, made for the
request's holder and TTL at a clock reading not before `τ`: the stored
expiry is never earlier than `τ` plus the TTL.
-/
import Berth.Client.Leases
import Berth.Server.ServerTheorems

namespace Berth.Client

open Berth.Interleave Berth.Lease Berth.Api Berth.Server

variable {cfg : Server.Config} {t₀ : Time} {p q : Pool (machine cfg)} {req : HttpRequest}
variable {id : Nat} {τ : Time}

/-- Sending a request is a step of the server. -/
theorem submit_step : p.step (.spawn (.http req)) = some (submit p req).2 := rfl

theorem submit_reaches : p.Reaches (submit p req).2 :=
  Relation.ReflTransGen.single ⟨_, submit_step⟩

/-- Request `id` is `req` and arrived at `τ` or later. -/
def Sent (p : Pool (machine cfg)) (id : Nat) (req : HttpRequest) (τ : Time) : Prop :=
  ∃ t, p.threads[id]? = some t ∧ t.call = .http req ∧ τ ≤ t.loc.invokedAt

theorem sent_submit (h : τ ≤ p.shared.clock) : Sent (submit p req).2 (submit p req).1 req τ := by
  refine ⟨{ call := .http req, loc := .start (.http req) p.shared, prog := prog cfg (.http req) },
    ?_, rfl, h⟩
  simp [submit]

theorem Sent.reaches (h : Sent p id req τ) (hr : p.Reaches q) : Sent q id req τ := by
  obtain ⟨t, ht, hcall, hτ⟩ := h
  obtain ⟨t', ht', hcall', hinv⟩ := hr.thread (f := Loc.invokedAt) (exec_origin · |>.2.1) ht
  exact ⟨t', ht', hcall'.trans hcall, by rw [hinv]; exact hτ⟩

/-! ## Answers -/

theorem reply_thread {resp : Response} (h : reply? p id = some resp) :
    ∃ t, p.threads[id]? = some t ∧ t.prog.result? = some (.response resp) := by
  unfold reply? at h
  split at h
  · next r heq =>
    cases h
    exact Option.bind_eq_some_iff.mp heq
  · cases h

/-- What the server has answered satisfies the postcondition of the call. -/
theorem reply_post {t : Thread (machine cfg)} {resp : Response} (hp : (fresh cfg t₀).Reaches p)
    (ht : p.threads[id]? = some t) (hcall : t.call = .http req) (hr : reply? p id = some resp) :
    CallPost cfg id (.http req) (.response resp) t.loc p.shared := by
  obtain ⟨t', ht', hres⟩ := reply_thread hr
  rw [ht] at ht'
  cases ht'
  rw [← hcall]
  exact (server_ok hp).returned ht hres

/-- A positive answer is a lease the server reported. -/
theorem decode_acquired {resp : Response} {res : AcquireResult} (h : decode resp = .ok res)
    (hacq : res.acquired = true) : (Outcome.response resp).lease? = some res := by
  obtain ⟨status, body⟩ := resp
  have hbody : body = .lease res := by
    unfold decode at h
    split at h
    · cases h
    · cases h; cases hacq
    · next r hst =>
      unfold checkStatus at hst
      split at hst
      · cases hst
      split at hst
      · cases hst
      split at hst
      · cases hst
      · cases hst
        cases h
        rfl
    · cases h; cases hacq
    · cases h
  rw [hbody]
  rfl

/-- A write that grants `k` to `h` for `ttl` under `tok` at a reading not
before `τ`. -/
structure Grants (x : Write Call) (k : Key) (h : String) (ttl : Duration) (tok : Int)
    (τ : Time) : Prop where
  key : x.new.key = k
  holder : x.new.holder = h
  named : h ≠ ""
  ttl : x.new.ttl = ttl
  token : x.new.fencingToken = tok
  reading : τ ≤ x.new.renewedAt

/-- The stored expiry is not before the request's start plus its TTL. -/
theorem Grants.deadline_le {x : Write Call} {k : Key} {h : String} {ttl : Duration} {tok : Int}
    (hg : Grants x k h ttl tok τ) : τ + ttl ≤ x.new.expiresAt := by
  unfold Record.expiresAt
  rw [hg.ttl]
  exact Int.add_le_add_right hg.reading ttl

section Answers

variable {resp : Response} {res : AcquireResult} {key : Key} {holder : String} {token : Int}
variable {ttl : Duration}

theorem granted_grants {i : Nat} {l : Loc} {w : World} (hclock : cfg.clock = .single)
    (hg : Granted cfg i l w key holder ttl res) (hτ : τ ≤ l.invokedAt) :
    ∃ x ∈ w.writes, x.tid = i ∧ Grants x key holder ttl res.fencingToken τ ∧
      res.expiresAt = x.new.expiresAt := by
  obtain ⟨x, hx, htid, _, hk, hh, hne, httl, hres, hread⟩ := hg
  refine ⟨x, hx, htid, ⟨hk, hh, hne, httl, ?_, Int.le_trans hτ (hread hclock)⟩, ?_⟩
  · rw [hres]; rfl
  · rw [hres]; rfl

/-- A positive answer to an Acquire names a write of the log. -/
theorem acquired_grants (hclock : cfg.clock = .single) (hp : (fresh cfg t₀).Reaches p)
    (hop : requestOp req = some (.acquire key holder ttl)) (hs : Sent p id req τ)
    (hr : reply? p id = some resp) (hd : decode resp = .ok res) (hacq : res.acquired = true) :
    ∃ x ∈ p.shared.writes, x.tid = id ∧ Grants x key holder ttl res.fencingToken τ ∧
      res.expiresAt = x.new.expiresAt := by
  obtain ⟨t, ht, hcall, hτ⟩ := hs
  have hpost := reply_post hp ht hcall hr
  exact granted_grants hclock
    (hpost.acquire hop (decode_acquired hd hacq) _ rfl hacq) hτ

/-- A positive answer to a Renew names a write of the log under the token
that was asked for. -/
theorem renewed_grants (hclock : cfg.clock = .single) (hp : (fresh cfg t₀).Reaches p)
    (hop : requestOp req = some (.renew key holder token ttl)) (hs : Sent p id req τ)
    (hr : reply? p id = some resp) (hd : decode resp = .ok res) (hacq : res.acquired = true) :
    res.fencingToken = token ∧
      ∃ x ∈ p.shared.writes, x.tid = id ∧ Grants x key holder ttl token τ ∧
        res.expiresAt = x.new.expiresAt := by
  obtain ⟨t, ht, hcall, hτ⟩ := hs
  have hpost := reply_post hp ht hcall hr
  obtain ⟨hg, htok⟩ := (hpost.renew hop (decode_acquired hd hacq) _ rfl).1 hacq
  refine ⟨htok, ?_⟩
  rw [← htok]
  exact granted_grants hclock hg hτ

end Answers

/-! ## Positions in the log -/

/-- Request `id` is `req`, and the log had `n` entries or more when it
arrived, none of them its own. -/
structure Posted (p : Pool (machine cfg)) (id : Nat) (req : HttpRequest) (n : Nat) : Prop where
  thread : ∃ t, p.threads[id]? = some t ∧ t.call = .http req ∧ n ≤ t.loc.started
  before : ∃ ws₀, ws₀ <:+ p.shared.writes ∧ n ≤ ws₀.length ∧ ∀ x ∈ ws₀, x.tid ≠ id

theorem posted_submit (hp : (fresh cfg t₀).Reaches p) :
    Posted (submit p req).2 (submit p req).1 req p.shared.writes.length where
  thread := ⟨{ call := .http req, loc := .start (.http req) p.shared, prog := prog cfg (.http req) },
    by simp [submit], rfl, Nat.le_refl _⟩
  before := ⟨p.shared.writes, List.suffix_refl _, Nat.le_refl _,
    fun _ hx => Nat.ne_of_lt (write_thread hp hx)⟩

theorem Posted.mono {n m : Nat} (h : Posted p id req n) (hm : m ≤ n) : Posted p id req m := by
  obtain ⟨⟨t, ht, hcall, hn⟩, ws₀, hws, hlen, hno⟩ := h
  exact ⟨⟨t, ht, hcall, Nat.le_trans hm hn⟩, ws₀, hws, Nat.le_trans hm hlen, hno⟩

theorem Posted.reaches {n : Nat} (h : Posted p id req n) (hp : (fresh cfg t₀).Reaches p)
    (hr : p.Reaches q) : Posted q id req n := by
  obtain ⟨⟨t, ht, hcall, hn⟩, ws₀, hws, hrest⟩ := h
  obtain ⟨t', ht', hcall', hst⟩ := hr.thread (f := Loc.started) (exec_origin · |>.2.2) ht
  exact ⟨⟨t', ht', hcall'.trans hcall, by rw [hst]; exact hn⟩,
    ws₀, hws.trans (reaches_later hp hr).1, hrest⟩

/-- The request's own writes come after what it found. -/
theorem Posted.after {n : Nat} {x : Write Call} (h : Posted p id req n)
    (hx : x ∈ p.shared.writes) (hid : x.tid = id) :
    ∃ post, (x :: post) <:+ p.shared.writes ∧ n ≤ post.length := by
  obtain ⟨ws₀, hws, hlen, hno⟩ := h.before
  obtain ⟨pre, post, heq⟩ := List.append_of_mem hx
  have hsuf : (x :: post) <:+ p.shared.writes := ⟨pre, heq.symm⟩
  refine ⟨post, hsuf, ?_⟩
  by_contra hlt
  have hle : (x :: post).length ≤ ws₀.length := by
    rw [List.length_cons]
    omega
  have hin := (List.suffix_of_suffix_length_le hsuf hws hle).subset List.mem_cons_self
  exact hno x hin hid

section Positions

variable {resp : Response} {res : AcquireResult} {key : Key} {holder : String} {token : Int}
variable {ttl : Duration} {n : Nat}

/-- A positive answer to an Acquire names a write made after the request
was sent. -/
theorem acquired_after (hp : (fresh cfg t₀).Reaches p)
    (hop : requestOp req = some (.acquire key holder ttl)) (hs : Posted p id req n)
    (hr : reply? p id = some resp) (hd : decode resp = .ok res) (hacq : res.acquired = true) :
    ∃ x post, (x :: post) <:+ p.shared.writes ∧ n ≤ post.length ∧ x.new.key = key ∧
      HeldBy holder res.fencingToken (some x.new) ∧ holder ≠ "" ∧
      res.expiresAt = x.new.expiresAt := by
  obtain ⟨t, ht, hcall, _⟩ := hs.thread
  have hpost := reply_post hp ht hcall hr
  obtain ⟨x, hx, htid, _, hk, hh, hne, _, hval, _⟩ :=
    hpost.acquire hop (decode_acquired hd hacq) _ rfl hacq
  obtain ⟨post, hsuf, hlen⟩ := hs.after hx htid
  refine ⟨x, post, hsuf, hlen, hk, ⟨hh, ?_⟩, hne, ?_⟩
  · rw [hval]; rfl
  · rw [hval]; rfl

/-- The answer to a Release that says the caller does not have the lease
any more. -/
def SaysGone (resp : Response) : Prop :=
  decodeRelease resp = .ok () ∨
    ∃ e, decodeRelease resp = .error e ∧ e.is .clientConflict = true

theorem SaysGone.cases (h : SaysGone resp) :
    (Outcome.response resp).isFailed = false ∧ resp.status ≠ 409 ∨ resp.status = 409 := by
  by_cases h409 : resp.status = 409
  · exact .inr h409
  refine .inl ⟨?_, h409⟩
  unfold SaysGone decodeRelease checkStatus at h
  rw [if_neg h409] at h
  by_cases h204 : resp.status = 204
  · simp [Outcome.isFailed, h204]
  rw [if_neg h204] at h
  by_cases h400 : 400 ≤ resp.status
  · rw [if_pos h400] at h
    rcases h with h | ⟨e, h, he⟩
    · cases h
    · cases h
      cases he
  · simpa [Outcome.isFailed] using h400

/-- After such an answer the caller did not have the lease at some instant
since it asked. -/
theorem released_after (hp : (fresh cfg t₀).Reaches p) (hcareful : cfg.careful = true)
    (hop : requestOp req = some (.release key holder token)) (hs : Posted p id req n)
    (hr : reply? p id = some resp) (hgone : SaysGone resp) :
    ∃ ws₀, ws₀ <:+ p.shared.writes ∧ n ≤ ws₀.length ∧ ¬ HeldBy holder token (storedAt ws₀ key) := by
  obtain ⟨t, ht, hcall, hn⟩ := hs.thread
  have hpost := reply_post hp ht hcall hr
  obtain ⟨_, hreleased, hconflict, hfailed⟩ := hpost.release hop
  have hvac : Vacated t.loc p.shared key holder token := by
    rcases hgone.cases with ⟨hno, h409⟩ | h409
    · have hrel : (Outcome.response resp).isReleased = true := by
        by_contra hrel
        have hf := hfailed (by simpa using hrel) (by simpa [Outcome.isConflict] using h409)
        rw [hno] at hf
        cases hf
      exact (hreleased hrel).careful hcareful rfl
    · exact hconflict (by simp [Outcome.isConflict, h409])
  obtain ⟨ws₀, hws, hlo, _, hnot⟩ := hvac
  exact ⟨ws₀, hws, Nat.le_trans hn hlo, hnot⟩

end Positions

/-! ## Whole seconds -/

/-- A whole number of seconds within `int32` survives the wire. -/
theorem ttl_roundTrip {n : Int} (h₀ : 0 ≤ n) (h₁ : n ≤ maxInt32) :
    toInt32 ((n * second).tdiv second) * second = n * second := by
  have hdiv : (n * second).tdiv second = n := Int.mul_tdiv_cancel n (by decide)
  rw [hdiv, toInt32_of_range h₀ h₁]

end Berth.Client
