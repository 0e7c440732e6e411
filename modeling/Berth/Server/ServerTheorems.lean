/-
Berth.Server.ServerTheorems — the server as a whole.

`CallPost` is the postcondition of a call, direct or over HTTP.
`server_ok` is the theorem every later result about the server starts
from: after any interleaving of any calls, the invariant holds and every
call that has returned satisfies its postcondition.
-/
import Berth.Server.ManagerTheorems

namespace Berth.Server

open Berth.Interleave Berth.Lease Berth.Tenant Berth.Api

variable {cfg : Config} {i : Nat} {l : Loc} {w : World}

/-! ## Postconditions of calls -/

/-- The lease a call reports, if it reports one. -/
def Outcome.lease? : Outcome → Option AcquireResult
  | .result (.ok r) => some r
  | .response ⟨_, .lease r⟩ => some r
  | _ => none

/-- The call reports a completed release. -/
def Outcome.isReleased : Outcome → Bool
  | .released (.ok ()) => true
  | .response r => r.status == 204
  | _ => false

/-- The call was turned down because of the stored record. -/
def Outcome.isConflict : Outcome → Bool
  | .released (.error e) => e.is .conflict
  | .response r => r.status == 409
  | _ => false

/-- The call says neither. -/
def Outcome.isFailed : Outcome → Bool
  | .released (.error e) => !e.is .conflict
  | .response r => decide (400 ≤ r.status)
  | _ => false

structure CallPost (cfg : Config) (i : Nat) (c : Call) (out : Outcome) (l : Loc) (w : World) :
    Prop where
  acquire : ∀ {key holder ttl res}, c.op = some (.acquire key holder ttl) →
    out.lease? = some res → AcquirePost cfg i key holder ttl (.ok res) l w
  renew : ∀ {key holder token ttl res}, c.op = some (.renew key holder token ttl) →
    out.lease? = some res → RenewPost cfg i key holder token ttl (.ok res) l w
  release : ∀ {key holder token}, c.op = some (.release key holder token) →
    out.lease? = none ∧ (out.isReleased = true → ReleasePost cfg key holder token (.ok ()) l w) ∧
      (out.isConflict = true → Vacated l w key holder token) ∧
      (out.isReleased = false → out.isConflict = false → out.isFailed = true)

/-- An outcome that reports neither a lease nor anything about a release
says nothing. -/
theorem callPost_of_silent {c : Call} {out : Outcome} (hl : out.lease? = none)
    (hr : out.isReleased = false) (hc : out.isConflict = false)
    (hf : ∀ {key holder token}, c.op = some (.release key holder token) → out.isFailed = true) :
    CallPost cfg i c out l w where
  acquire := fun _ h => by rw [hl] at h; cases h
  renew := fun _ h => by rw [hl] at h; cases h
  release := fun hop =>
    ⟨hl, fun h => absurd h (by rw [hr]; decide), fun h => absurd h (by rw [hc]; decide),
      fun _ _ => hf hop⟩

theorem callPost_response_error {c : Call} {status : Nat} {msg : String} (h : 400 ≤ status)
    (hc : status ≠ 409) : CallPost cfg i c (.response (writeError status msg)) l w := by
  refine callPost_of_silent rfl ?_ ?_ fun _ => decide_eq_true h
  · show (status == 204) = false
    exact beq_false_of_ne (by omega)
  · exact beq_false_of_ne hc

theorem callPost_acquire {c : Call} {out : Outcome} {key : Key} {holder : String}
    {ttl : Duration} (hop : c.op = some (.acquire key holder ttl))
    (h : ∀ res, out.lease? = some res → AcquirePost cfg i key holder ttl (.ok res) l w) :
    CallPost cfg i c out l w where
  acquire := fun hop' hres => by
    rw [hop] at hop'
    cases hop'
    exact h _ hres
  renew := fun hop' => by rw [hop] at hop'; cases hop'
  release := fun hop' => by rw [hop] at hop'; cases hop'

theorem callPost_renew {c : Call} {out : Outcome} {key : Key} {holder : String} {token : Int}
    {ttl : Duration} (hop : c.op = some (.renew key holder token ttl))
    (h : ∀ res, out.lease? = some res → RenewPost cfg i key holder token ttl (.ok res) l w) :
    CallPost cfg i c out l w where
  acquire := fun hop' => by rw [hop] at hop'; cases hop'
  renew := fun hop' hres => by
    rw [hop] at hop'
    cases hop'
    exact h _ hres
  release := fun hop' => by rw [hop] at hop'; cases hop'

theorem callPost_release {c : Call} {out : Outcome} {key : Key} {holder : String} {token : Int}
    (hop : c.op = some (.release key holder token)) (hl : out.lease? = none)
    (h : out.isReleased = true → ReleasePost cfg key holder token (.ok ()) l w)
    (hc : out.isConflict = true → Vacated l w key holder token)
    (hf : out.isReleased = false → out.isConflict = false → out.isFailed = true) :
    CallPost cfg i c out l w where
  acquire := fun hop' => by rw [hop] at hop'; cases hop'
  renew := fun hop' => by rw [hop] at hop'; cases hop'
  release := fun hop' => by
    rw [hop] at hop'
    cases hop'
    exact ⟨hl, h, hc, hf⟩

/-! ## HTTP -/

section Http

variable {req : HttpRequest} {op : LeaseOp} {holder : String}

/-- The postcondition of a handler. -/
abbrev HttpPost (cfg : Config) (i : Nat) (req : HttpRequest) (resp : Response) (l : Loc)
    (w : World) : Prop := CallPost cfg i (.http req) (.response resp) l w

theorem robust_httpError {status : Nat} {msg : String} (h : 400 ≤ status) (hc : status ≠ 409) :
    Robust (discipline cfg) i (.ret (writeError status msg)) (HttpPost cfg i req) l w :=
  robust_ret fun _ _ _ => callPost_response_error h hc

theorem robust_refused {resp : Response} (h : Refused resp) :
    Robust (discipline cfg) i (.ret resp) (HttpPost cfg i req) l w := by
  obtain ⟨status, msg, hstatus, rfl⟩ := h
  exact robust_httpError (by omega) (by omega)

/-- Behind the checks the call is entitled to act for its holder. -/
theorem running_http (hl : l = .start (.http req) w) (hop : requestOp req = some op)
    (hh : op.holder? = some holder)
    (hauth : authorize cfg.authz req.identity req.key.ns holder = .ok ()) : Running cfg op l w := by
  subst hl
  refine ⟨hop, ?_, Nat.le_refl _, fun _ => Int.le_refl _⟩
  intro req' hreq
  cases hreq
  exact ⟨op, holder, hop, hh, hauth⟩

theorem robust_handleAcquire {body : AcquireRequest} (hl : l = .start (.http req) w)
    (hreq : req.endpoint = .acquire (.ok body)) :
    Robust (discipline cfg) i (handleAcquire cfg.authz req.identity req.key body)
      (HttpPost cfg i req) l w := by
  have hop : requestOp req =
      some (.acquire req.key body.holder (body.ttlSeconds * second)) := by
    simp only [requestOp, hreq]
  rcases handleAcquire_cases cfg.authz req.identity req.key body with
    ⟨resp, href, heq⟩ | ⟨-, -, hauth, -, heq⟩
  · rw [heq]
    exact robust_refused href
  rw [heq]
  refine Robust.bind ((robust_acquire (running_http hl hop rfl hauth)).mono ?_)
  intro a l' w' hw' hpost
  cases a with
  | error e => exact robust_httpError (by decide) (by decide)
  | ok res =>
    refine robust_ret fun w'' he _ => callPost_acquire hop fun res' hres => ?_
    cases hres
    exact hpost.later he

theorem robust_handleRenew {body : RenewRequest} (hl : l = .start (.http req) w)
    (hreq : req.endpoint = .renew (.ok body)) :
    Robust (discipline cfg) i (handleRenew cfg.authz req.identity req.key body)
      (HttpPost cfg i req) l w := by
  have hop : requestOp req =
      some (.renew req.key body.holder body.fencingToken (body.ttlSeconds * second)) := by
    simp only [requestOp, hreq]
  rcases handleRenew_cases cfg.authz req.identity req.key body with
    ⟨resp, href, heq⟩ | ⟨-, -, -, hauth, -, heq⟩
  · rw [heq]
    exact robust_refused href
  rw [heq]
  refine Robust.bind ((robust_renew (running_http hl hop rfl hauth)).mono ?_)
  intro a l' w' hw' hpost
  cases a with
  | error e => exact robust_httpError (by decide) (by decide)
  | ok res =>
    refine robust_ret fun w'' he _ => callPost_renew hop fun res' hres => ?_
    cases hres
    exact hpost.later he

theorem robust_handleRelease {body : ReleaseRequest} (hl : l = .start (.http req) w)
    (hreq : req.endpoint = .release (.ok body)) :
    Robust (discipline cfg) i (handleRelease cfg.authz req.identity req.key body)
      (HttpPost cfg i req) l w := by
  have hop : requestOp req = some (.release req.key body.holder body.fencingToken) := by
    simp only [requestOp, hreq]
  rcases handleRelease_cases cfg.authz req.identity req.key body with
    ⟨resp, href, heq⟩ | ⟨-, hauth, -, heq⟩
  · rw [heq]
    exact robust_refused href
  rw [heq]
  refine Robust.bind ((robust_release (running_http hl hop rfl hauth)).mono ?_)
  intro a l' w' hw' hpost
  cases a with
  | error e =>
    unfold answerRelease
    dsimp only
    split
    · next hconf =>
      exact robust_ret fun w'' he _ => callPost_release hop rfl (fun h => nomatch h)
        (fun _ => (hpost.refused e rfl hconf).later he) fun _ h => nomatch h
    · exact robust_httpError (by decide) (by decide)
  | ok u =>
    exact robust_ret fun w'' he _ => callPost_release hop rfl (fun _ => hpost.later he)
      (fun h => nomatch h) fun h => nomatch h

theorem robust_handle (hl : l = .start (.http req) w) :
    Robust (discipline cfg) i (handle cfg.authz req) (HttpPost cfg i req) l w := by
  -- an undecodable body asks for nothing, so the error response is all there is
  have hsilent : ∀ resp, requestOp req = none →
      Robust (discipline cfg) i (.ret resp) (HttpPost cfg i req) l w := by
    intro resp hop
    refine robust_ret fun _ _ _ => ⟨fun hop' => ?_, fun hop' => ?_, fun hop' => ?_⟩
    · rw [Call.op, hop] at hop'; cases hop'
    · rw [Call.op, hop] at hop'; cases hop'
    · rw [Call.op, hop] at hop'; cases hop'
  unfold handle
  split
  · next resp hreq => exact hsilent resp (by simp only [requestOp, hreq])
  · next body hreq => exact robust_handleAcquire hl hreq
  · next resp hreq => exact hsilent resp (by simp only [requestOp, hreq])
  · next body hreq => exact robust_handleRenew hl hreq
  · next resp hreq => exact hsilent resp (by simp only [requestOp, hreq])
  · next body hreq => exact robust_handleRelease hl hreq

end Http

/-! ## Every call -/

/-- Every program of the server is robust when it starts. -/
theorem robust_prog (c : Call) :
    Robust (discipline cfg) i (prog cfg c) (CallPost cfg i c) (.start c w) w := by
  have hrun : ∀ op, c.op = some op → (∀ req, c ≠ .http req) →
      Running cfg op (.start c w) w := by
    intro op hop hdirect
    exact ⟨hop, fun req hreq => absurd hreq (hdirect req), Nat.le_refl _,
      fun _ => Int.le_refl _⟩
  cases c with
  | acquire key holder ttl =>
    refine Robust.bind ((robust_acquire (hrun _ rfl fun _ h => nomatch h)).mono ?_)
    intro a l' w' _ hpost
    refine robust_ret fun w'' he _ => callPost_acquire rfl fun res hres => ?_
    cases a with
    | error e => cases hres
    | ok r => cases hres; exact hpost.later he
  | renew key holder token ttl =>
    refine Robust.bind ((robust_renew (hrun _ rfl fun _ h => nomatch h)).mono ?_)
    intro a l' w' _ hpost
    refine robust_ret fun w'' he _ => callPost_renew rfl fun res hres => ?_
    cases a with
    | error e => cases hres
    | ok r => cases hres; exact hpost.later he
  | release key holder token =>
    refine Robust.bind ((robust_release (hrun _ rfl fun _ h => nomatch h)).mono ?_)
    intro a l' w' _ hpost
    refine robust_ret fun w'' he _ => ?_
    cases a with
    | error e =>
      refine callPost_release rfl rfl (fun h => nomatch h)
        (fun hconf => (hpost.refused e rfl hconf).later he) fun _ hconf => ?_
      simpa [Outcome.isFailed, Outcome.isConflict] using hconf
    | ok u =>
      exact callPost_release rfl rfl (fun _ => hpost.later he) (fun h => nomatch h)
        fun h => nomatch h
  | collect e =>
    refine Robust.bind ((robust_collect (hrun _ rfl fun _ h => nomatch h)).mono ?_)
    intro n l' w' _ _
    exact robust_ret fun _ _ _ => callPost_of_silent rfl rfl rfl fun hop => nomatch hop
  | http req =>
    refine Robust.bind ((robust_handle rfl).mono ?_)
    intro resp l' w' _ hpost
    refine robust_ret fun w'' he _ => ?_
    refine ⟨fun hop hres => (hpost.acquire hop hres).later he,
      fun hop hres => (hpost.renew hop hres).later he,
      fun hop => ?_⟩
    obtain ⟨hl, hrel, hconf, hfail⟩ := hpost.release hop
    exact ⟨hl, fun hres => (hrel hres).later he, fun hres => (hconf hres).later he, hfail⟩

variable {t₀ : Time} {p q : Pool (machine cfg)}

/-- After any interleaving of any calls the invariant holds and every
returned call satisfies its postcondition. -/
theorem server_ok (h : (fresh cfg t₀).Reaches p) :
    PoolOk (discipline cfg) (CallPost cfg) p := by
  refine PoolOk.reaches ?_ ?_ (PoolOk.empty (World.ok_new t₀) fun _ => trivial) h trivial
  · intro n c s l s' _ _ _ hs
    cases hs
    exact robust_prog c
  · intro a b _ _
    trivial

theorem world_ok (h : (fresh cfg t₀).Reaches p) : World.Ok cfg p.shared := (server_ok h).inv

/-- Everything a step does to the shared state. -/
theorem step_world (hp : (fresh cfg t₀).Reaches p) {a : Action (machine cfg)}
    (h : p.step a = some q) :
    q.shared = p.shared ∨
    (∃ i t x, p.threads[i]? = some t ∧ Writes cfg i t.loc x p.shared q.shared) ∨
    (∃ τ, p.shared.clock ≤ τ ∧ q.shared = { p.shared with clock := τ }) := by
  cases a with
  | spawn c =>
    obtain ⟨l, s, hst, rfl⟩ := Pool.step_spawn h
    cases hst
    exact .inl rfl
  | exec i ch =>
    obtain ⟨t, o, k, r, l, s, ht, hprog, hex, rfl⟩ := Pool.step_exec h
    have hok := server_ok hp
    have hrob := hok.robust i t ht
    rw [hprog] at hrob
    obtain ⟨hg, _⟩ := hrob p.shared (Later.refl _) hok.inv ch r l s hex trivial
    rcases hg with heq | ⟨x, hx⟩
    · exact .inl heq
    · exact .inr (.inl ⟨i, t, x, ht, hx⟩)
  | env τ =>
    obtain ⟨s, he, rfl⟩ := Pool.step_env h
    exact .inr (.inr ⟨τ, env_cases he⟩)

/-- A run only adds to the log. -/
theorem reaches_later (hp : (fresh cfg t₀).Reaches p) (h : p.Reaches q) :
    Later p.shared q.shared := by
  refine PoolOk.reaches_rel (D := discipline cfg) Later.refl Later.trans ?_ ?_ ?_
    (fun _ => trivial) (fun ha => server_ok (hp.trans ha)) h
  · intro i l s s' hg
    rcases hg with rfl | ⟨x, hx⟩
    · exact Later.refl _
    · exact hx.later
  · intro e s s' he
    obtain ⟨hle, rfl⟩ := env_cases he
    exact ⟨List.suffix_refl _, hle⟩
  · intro n c l s s' hs
    cases hs
    exact Later.refl _

/-- A thread's bookkeeping is about its own call. -/
theorem loc_call (h : (fresh cfg t₀).Reaches p) {i : Nat} {t : Thread (machine cfg)}
    (ht : p.threads[i]? = some t) : t.loc.call = t.call := by
  induction h generalizing i t with
  | refl =>
    have hnil : ([] : List (Thread (machine cfg)))[i]? = some t := ht
    rw [List.getElem?_nil] at hnil
    cases hnil
  | @tail b c hb hs ih =>
    obtain ⟨c, l, s, hst, rfl⟩ | ⟨j, ch, u, o, k, r, l, s, hu, hprog, hex, rfl⟩ | ⟨e, s, he, rfl⟩ :=
      Pool.step_cases hs
    · cases hst
      rw [List.getElem?_append] at ht
      split at ht
      · exact ih ht
      rw [List.getElem?_singleton] at ht
      split at ht
      · cases ht
        rfl
      · cases ht
    · rw [List.getElem?_set] at ht
      split at ht
      · split at ht
        · cases ht
          show l.call = u.call
          rw [← ih hu]
          exact (exec_origin hex).1
        · cases ht
      · exact ih ht
    · exact ih ht

/-- Every write was made for a call of the pool. -/
theorem write_call (h : (fresh cfg t₀).Reaches p) {x : Write Call}
    (hx : x ∈ p.shared.writes) : x.call ∈ p.calls := by
  induction h with
  | refl => cases hx
  | @tail b c hb hs ih =>
    obtain ⟨a, ha⟩ := hs
    have hcalls := Pool.calls_subset_step ha
    rcases step_world hb ha with heq | ⟨i, t, y, ht, hy⟩ | ⟨τ, _, heq⟩
    · rw [heq] at hx
      exact hcalls (ih hx)
    · rw [hy.log] at hx
      rcases List.mem_cons.mp hx with rfl | hx
      · rw [hy.call, loc_call hb ht]
        exact hcalls (List.mem_map_of_mem (List.mem_of_getElem? ht))
      · exact hcalls (ih hx)
    · rw [heq] at hx
      exact hcalls (ih hx)

/-- Every write was made by a thread of the pool. -/
theorem write_thread (h : (fresh cfg t₀).Reaches p) {x : Write Call}
    (hx : x ∈ p.shared.writes) : x.tid < p.threads.length := by
  induction h with
  | refl => cases hx
  | @tail b c hb hs ih =>
    obtain ⟨a, ha⟩ := hs
    have hlen : b.threads.length ≤ c.threads.length := Pool.threads_length_step ha
    rcases step_world hb ha with heq | ⟨i, t, y, ht, hy⟩ | ⟨τ, _, heq⟩
    · rw [heq] at hx
      exact Nat.lt_of_lt_of_le (ih hx) hlen
    · rw [hy.log] at hx
      rcases List.mem_cons.mp hx with rfl | hx
      · rw [hy.tid]
        exact Nat.lt_of_lt_of_le (List.getElem?_eq_some_iff.mp ht).1 hlen
      · exact Nat.lt_of_lt_of_le (ih hx) hlen
    · rw [heq] at hx
      exact Nat.lt_of_lt_of_le (ih hx) hlen

end Berth.Server
