/-
Berth.Api.StatusTheorems — which requests the server answers with an error
of its own.

A store is cooperative in a call if each of its answers is a record whose
token can still grow, or one of the two sentinels, and fewer writes conflict
than the acquire loop has attempts. Against such a store every manager
method succeeds once its arguments are accepted. The handlers accept no
other arguments, with one exception: a renewal is checked for the token zero
by the handler, and for a positive token by the manager
(`status_below_500_iff`).
-/
import Berth.Api.Leases

namespace Berth.Api

open Berth.Interleave Berth.Lease Berth.Tenant

/-! ## Cooperative stores -/

/-- A record with a token below the ceiling, or the sentinel of the
method. -/
def tame : Event StoreSig → Bool
  | ⟨.get _, .ok r⟩ => r.fencingToken < maxInt32
  | ⟨.get _, .error e⟩ => e.is .notFound
  | ⟨.put _ _, .error e⟩ => e.is .conflict
  | _ => true

def conflicted : Event StoreSig → Bool
  | ⟨.put _ _, .error e⟩ => e.is .conflict
  | _ => false

/-- What the store has answered in one call. -/
structure Cooperative (evs : List (Event StoreSig)) : Prop where
  answers : ∀ x ∈ evs, tame x = true
  conflicts : evs.countP conflicted < Manager.maxAcquireAttempts

instance (evs : List (Event StoreSig)) : Decidable (Cooperative evs) :=
  decidable_of_iff ((∀ x ∈ evs, tame x = true) ∧ evs.countP conflicted < Manager.maxAcquireAttempts)
    ⟨fun h => ⟨h.1, h.2⟩, fun h => ⟨h.1, h.2⟩⟩

variable {key : Key} {holder : String} {token : Int} {ttl : Duration} {n : Nat}
variable {evs : List (Event StoreSig)} {res : Except Err AcquireResult}

/-- Below the ceiling the switch of `Acquire` is never stuck. -/
theorem decideAcquire_ne_exhausted {cur : Option Record} {now : Time}
    (h : ∀ r ∈ cur, r.fencingToken < maxInt32) :
    Manager.decideAcquire cur holder now ≠ .exhausted := by
  cases cur with
  | none => simp [Manager.decideAcquire]
  | some cur =>
    have hlt := h cur rfl
    have hne : cur.fencingToken ≠ maxInt32 := Int.ne_of_lt hlt
    simp only [Manager.decideAcquire, if_neg hne]
    split
    · simp
    · split <;> simp

/-- One pass returns a result, or has met a conflict and goes on with the
rest of the loop. -/
theorem acquireAttempt_ok {cur : Option Record} {retry : Prog StoreSig (Except Err AcquireResult)}
    (h : (Manager.acquireAttempt key holder ttl cur retry).Ran evs res)
    (hcur : ∀ r ∈ cur, r.fencingToken < maxInt32) (hevs : ∀ x ∈ evs, tame x = true) :
    (∃ r, res = .ok r) ∨
      ∃ first rest, evs = first ++ rest ∧ first.countP conflicted = 1 ∧ retry.Ran rest res := by
  obtain ⟨now, evs₁, rfl, h₁⟩ := Prog.Ran.of_perform h
  split at h₁
  · obtain ⟨-, rfl⟩ := h₁.of_ret
    exact .inl ⟨_, rfl⟩
  · next hstuck => exact absurd hstuck (decideAcquire_ne_exhausted hcur)
  rename_i expected token acquiredAt
  obtain ⟨put, evs₂, rfl, h₂⟩ := Prog.Ran.of_perform h₁
  cases put with
  | ok u =>
    obtain ⟨-, rfl⟩ := h₂.of_ret
    exact .inl ⟨_, rfl⟩
  | error e =>
    have hconf : e.is .conflict = true :=
      hevs _ (List.mem_cons_of_mem _ List.mem_cons_self)
    dsimp only at h₂
    rw [if_pos hconf] at h₂
    refine .inr ⟨[⟨.now, now⟩, ⟨.put _ _, .error e⟩], evs₂, rfl, ?_, h₂⟩
    simp [conflicted, hconf]

theorem acquireLoop_ok (h : (Manager.acquireLoop key holder ttl n).Ran evs res)
    (hevs : ∀ x ∈ evs, tame x = true) (hconf : evs.countP conflicted < n) : ∃ r, res = .ok r := by
  induction n generalizing evs with
  | zero => exact absurd hconf (Nat.not_lt_zero _)
  | succ n ih =>
    obtain ⟨got, evs₁, rfl, h₁⟩ := Prog.Ran.of_perform h
    rw [List.forall_mem_cons] at hevs
    -- whatever was read, what is left is one pass and then the loop
    have hpass (cur : Option Record) (hcur : ∀ r ∈ cur, r.fencingToken < maxInt32)
        (h₂ : (Manager.acquireAttempt key holder ttl cur (Manager.acquireLoop key holder ttl n)).Ran
          evs₁ res) : ∃ r, res = .ok r := by
      rcases acquireAttempt_ok h₂ hcur hevs.2 with hok | ⟨first, rest, rfl, hone, hrest⟩
      · exact hok
      · rw [List.countP_cons, List.countP_append, hone] at hconf
        exact ih hrest (fun x hx => hevs.2 x (List.mem_append_right _ hx)) (by omega)
    cases got with
    | ok cur =>
      refine hpass (some cur) ?_ h₁
      intro r hr
      cases hr
      exact of_decide_eq_true hevs.1
    | error e =>
      have hnf : e.is .notFound = true := hevs.1
      dsimp only at h₁
      rw [if_pos hnf] at h₁
      exact hpass none (by simp) h₁

theorem renewHeld_ok (h : (Manager.renewHeld key holder token ttl).Ran evs res)
    (hevs : ∀ x ∈ evs, tame x = true) : ∃ r, res = .ok r := by
  obtain ⟨got, evs₁, rfl, h₁⟩ := Prog.Ran.of_perform h
  rw [List.forall_mem_cons] at hevs
  cases got with
  | error e =>
    have hnf : e.is .notFound = true := hevs.1
    dsimp only at h₁
    rw [if_pos hnf] at h₁
    obtain ⟨-, rfl⟩ := h₁.of_ret
    exact ⟨_, rfl⟩
  | ok cur =>
    obtain ⟨now, evs₂, rfl, h₂⟩ := Prog.Ran.of_perform h₁
    split at h₂
    · obtain ⟨-, rfl⟩ := h₂.of_ret
      exact ⟨_, rfl⟩
    obtain ⟨put, evs₃, rfl, h₃⟩ := Prog.Ran.of_perform h₂
    cases put with
    | ok u =>
      obtain ⟨-, rfl⟩ := h₃.of_ret
      exact ⟨_, rfl⟩
    | error e =>
      have hconf : e.is .conflict = true :=
        hevs.2 _ (List.mem_cons_of_mem _ List.mem_cons_self)
      dsimp only at h₃
      rw [if_pos hconf] at h₃
      obtain ⟨evs₄, evs₅, lost, rfl, -, h₄⟩ := Prog.Ran.of_bind h₃
      obtain ⟨-, rfl⟩ := h₄.of_ret
      exact ⟨_, rfl⟩

theorem releaseHeld_ok {res : Except Err Unit}
    (h : (Manager.releaseHeld key holder token).Ran evs res) (hevs : ∀ x ∈ evs, tame x = true) :
    res = .ok () ∨ res = .error errConflict := by
  obtain ⟨got, evs₁, rfl, h₁⟩ := Prog.Ran.of_perform h
  rw [List.forall_mem_cons] at hevs
  cases got with
  | error e =>
    have hnf : e.is .notFound = true := hevs.1
    dsimp only at h₁
    rw [if_pos hnf] at h₁
    exact .inl h₁.of_ret.2.symm
  | ok cur =>
    dsimp only at h₁
    split at h₁
    · exact .inl h₁.of_ret.2.symm
    split at h₁
    · exact .inr h₁.of_ret.2.symm
    obtain ⟨now, evs₂, rfl, h₂⟩ := Prog.Ran.of_perform h₁
    obtain ⟨put, evs₃, rfl, h₃⟩ := Prog.Ran.of_perform h₂
    cases put with
    | ok u => exact .inl h₃.of_ret.2.symm
    | error e =>
      have hconf : e.is .conflict = true :=
        hevs.2 _ (List.mem_cons_of_mem _ List.mem_cons_self)
      dsimp only at h₃
      rw [if_pos hconf] at h₃
      exact .inl h₃.of_ret.2.symm

/-! ## Handlers -/

variable {authz : Option Authorizer} {id : Option Identity} {resp : Response}

/-- A handler that returns a response answers with its status. -/
theorem status_lt_of_ret {r : Response} (h : Prog.Ran (.ret r : Prog StoreSig Response) evs resp)
    (hr : r.status < 500) : resp.status < 500 := by
  rw [← h.of_ret.2]
  exact hr

theorem Refused.status_lt (h : Refused resp) : resp.status < 500 := by
  obtain ⟨status, msg, hstatus, rfl⟩ := h
  show status < 500
  omega

theorem ttl_pos {secs : Int} (h : 0 < secs) : ¬ secs * second ≤ 0 := by
  unfold second
  omega

theorem handleAcquire_lt {req : AcquireRequest}
    (h : (handleAcquire authz id key req).Ran evs resp) (hc : Cooperative evs) :
    resp.status < 500 := by
  rcases handleAcquire_cases authz id key req with
    ⟨resp', href, heq⟩ | ⟨hholder, httl, -, hkey, heq⟩
  · exact status_lt_of_ret (heq ▸ h) href.status_lt
  rw [heq] at h
  obtain ⟨evs₁, evs₂, res, rfl, hacq, hresp⟩ := Prog.Ran.of_bind h
  simp only [Manager.acquire, lease_validateKey hkey, hholder, if_neg (ttl_pos httl)] at hacq
  have hle : evs₁.countP conflicted ≤ (evs₁ ++ evs₂).countP conflicted := by
    rw [List.countP_append]
    omega
  obtain ⟨r, rfl⟩ := acquireLoop_ok hacq
    (fun x hx => hc.answers x (List.mem_append_left _ hx)) (Nat.lt_of_le_of_lt hle hc.conflicts)
  exact status_lt_of_ret (r := ⟨200, .lease r⟩) hresp (by simp)

/-- What the handler of a renewal passes on to the manager is accepted there
unless the token is negative. -/
theorem handleRenew_lt {req : RenewRequest} (h : (handleRenew authz id key req).Ran evs resp)
    (hc : Cooperative evs)
    (htoken : validateHolder req.holder = .ok () → 0 < req.ttlSeconds →
      authorize authz id key.ns req.holder = .ok () → validateKey key = .ok () →
      0 ≤ req.fencingToken) :
    resp.status < 500 := by
  rcases handleRenew_cases authz id key req with
    ⟨resp', href, heq⟩ | ⟨hholder, hzero, httl, hauth, hkey, heq⟩
  · exact status_lt_of_ret (heq ▸ h) href.status_lt
  rw [heq] at h
  have hnonneg := htoken hholder httl hauth hkey
  have hpos : ¬ req.fencingToken ≤ 0 := by omega
  obtain ⟨evs₁, evs₂, res, rfl, hren, hresp⟩ := Prog.Ran.of_bind h
  simp only [Manager.renew, lease_validateKey hkey, hholder, if_neg hpos,
    if_neg (ttl_pos httl)] at hren
  obtain ⟨r, rfl⟩ := renewHeld_ok hren (fun x hx => hc.answers x (List.mem_append_left _ hx))
  exact status_lt_of_ret (r := ⟨200, .lease r⟩) hresp (by simp)

theorem handleRelease_lt {req : ReleaseRequest}
    (h : (handleRelease authz id key req).Ran evs resp) (hc : Cooperative evs) :
    resp.status < 500 := by
  rcases handleRelease_cases authz id key req with
    ⟨resp', href, heq⟩ | ⟨hholder, -, hkey, heq⟩
  · exact status_lt_of_ret (heq ▸ h) href.status_lt
  rw [heq] at h
  obtain ⟨evs₁, evs₂, res, rfl, hrel, hresp⟩ := Prog.Ran.of_bind h
  simp only [Manager.release, lease_validateKey hkey, if_neg hholder] at hrel
  rcases releaseHeld_ok hrel (fun x hx => hc.answers x (List.mem_append_left _ hx)) with
    rfl | rfl
  · exact status_lt_of_ret hresp (by decide)
  · exact status_lt_of_ret (r := writeError 409 _) hresp (by decide)

/-! ## Requests -/

/-- `decodeJSON` has accepted the body. -/
def HttpRequest.decoded (req : HttpRequest) : Bool :=
  match req.endpoint with
  | .acquire body => body.isOk
  | .renew body => body.isOk
  | .release body => body.isOk

/-- A renewal with a negative token that the handler passes on. -/
def NegativeRenewal (authz : Option Authorizer) (req : HttpRequest) : Prop :=
  ∃ body, req.endpoint = .renew (.ok body) ∧ body.fencingToken < 0 ∧
    validateHolder body.holder = .ok () ∧ 0 < body.ttlSeconds ∧
    authorize authz req.identity req.key.ns body.holder = .ok () ∧ validateKey req.key = .ok ()

/-- The manager refuses it before it asks the store. -/
theorem NegativeRenewal.ran {req : HttpRequest} (h : NegativeRenewal authz req) :
    (handle authz req).Ran [] (writeError 500 "internal error") := by
  obtain ⟨body, hbody, htoken, hholder, httl, hauth, hkey⟩ := h
  have hzero : body.fencingToken ≠ 0 := by omega
  have hneg : body.fencingToken ≤ 0 := by omega
  have hsecs : ¬ body.ttlSeconds ≤ 0 := by omega
  simp only [handle, hbody, handleRenew, hholder, if_neg hzero, if_neg hsecs, guarded, hauth, hkey,
    Manager.renew, lease_validateKey hkey, if_pos hneg]
  exact .ret _

/-- Against a cooperative store a decoded request is answered with a status
below 500, unless it is a renewal with a negative token that passes every
other check. -/
theorem status_below_500_iff (authz : Option Authorizer) (req : HttpRequest)
    (hreq : req.decoded = true) :
    (∀ evs resp, (handle authz req).Ran evs resp → Cooperative evs → resp.status < 500) ↔
      ¬ NegativeRenewal authz req := by
  constructor
  · intro hall hneg
    have hcoop : Cooperative [] := by decide
    exact absurd (hall [] _ hneg.ran hcoop) (by decide)
  · intro hnot evs resp hran hcoop
    obtain ⟨id, key, endpoint⟩ := req
    cases endpoint with
    | acquire body =>
      cases body with
      | error e => cases hreq
      | ok body => exact handleAcquire_lt hran hcoop
    | renew body =>
      cases body with
      | error e => cases hreq
      | ok body =>
        refine handleRenew_lt hran hcoop ?_
        intro hholder httl hauth hkey
        by_contra hneg
        exact hnot ⟨body, rfl, Int.not_le.mp hneg, hholder, httl, hauth, hkey⟩
    | release body =>
      cases body with
      | error e => cases hreq
      | ok body => exact handleRelease_lt hran hcoop

/-- A renewal of a lease that does not exist. -/
def sampleRenewal (token : Int) : HttpRequest :=
  ⟨none, ⟨"prod", "checkout"⟩, .renew (.ok ⟨"east/checkout", token, 30⟩)⟩

theorem status_below_500_sample :
    (handle none (sampleRenewal 3)).Ran [⟨.get ⟨"prod", "checkout"⟩, .error errNotFound⟩]
        ⟨200, .lease { acquired := false }⟩ ∧
      (⟨200, .lease { acquired := false }⟩ : Response).status < 500 := by
  have hran : (handle none (sampleRenewal 3)).Ran
      [⟨.get ⟨"prod", "checkout"⟩, .error errNotFound⟩] ⟨200, .lease { acquired := false }⟩ :=
    .op (.ret _)
  refine ⟨hran, (status_below_500_iff none (sampleRenewal 3) rfl).mpr ?_ _ _ hran (by decide)⟩
  rintro ⟨body, hbody, hneg, -⟩
  cases hbody
  exact absurd hneg (by decide)

/-- The token −1 is the server's fault. -/
theorem negative_token_is_internal_error :
    (sampleRenewal (-1)).decoded = true ∧ Cooperative [] ∧
      (handle none (sampleRenewal (-1))).Ran [] (writeError 500 "internal error") :=
  ⟨rfl, by decide, NegativeRenewal.ran ⟨_, rfl, by decide, by decide, by decide, rfl, by decide⟩⟩

end Berth.Api
