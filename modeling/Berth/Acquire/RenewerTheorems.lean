/-
Berth.Acquire.RenewerTheorems — the renewer and the init container keep
the discipline of `FleetTheorems`, in every interleaving.

The proofs follow `Renewer` function by function. Everything the enforcer
and the state directory do is plain. The two places that matter are the
adoption of a deadline after a Renew and after an Acquire: there the
answer names a write of the server's log that was made after the request
was sent, so the local deadline is backed by it.
-/
import Berth.Acquire.FleetTheorems

namespace Berth.Acquire

open Berth.Interleave Berth.Lease Berth.Api Berth.Client

variable {α : Type}

/-! ## Requests -/

section Requests

variable {ι : Type} {F : Fleet ι} {cfg : Server.Config} {τ : Time}
variable {i : Nat} {c : Start ι} {s s' : Site ι cfg} {Q : α → Start ι → Site ι cfg → Prop}

/-- The TTL a Pod sends is the TTL it counts with. -/
theorem sent_ttl (F : Fleet ι) (j : ι) :
    toInt32 ((F.ttl j).tdiv second) * second = F.ttl j := by
  have h : F.ttl j = F.ttlSeconds j * second := F.config_ttl j
  rw [h]
  exact ttl_roundTrip (Int.le_of_lt (F.ttl_pos j)) (F.ttl_max j)

theorem acquire_op (F : Fleet ι) (j : ι) :
    Server.requestOp ⟨F.identity j, F.key, acquireEndpoint (F.holder j) (F.ttl j)⟩ =
      some (.acquire F.key (F.holder j) (F.ttl j)) := by
  show some (LeaseOp.acquire _ _ (toInt32 _ * second)) = _
  rw [sent_ttl]

theorem renew_op (F : Fleet ι) (j : ι) (token : Int) :
    Server.requestOp ⟨F.identity j, F.key, renewEndpoint (F.holder j) token (F.ttl j)⟩ =
      some (.renew F.key (F.holder j) token (F.ttl j)) := by
  show some (LeaseOp.renew _ _ _ (toInt32 _ * second)) = _
  rw [sent_ttl]

theorem Backed.of_grants {x : Write Server.Call} {p : Pool (Server.machine cfg)} {j : ι}
    {tok : Int} (hx : x ∈ p.shared.writes)
    (hg : Grants x F.key (F.holder j) (F.ttl j) tok τ) : Backed F p j tok (τ + F.ttl j) :=
  ⟨x, hx, hg.key, ⟨hg.holder, hg.token⟩, hg.named, hg.deadline_le⟩

variable [DecidableEq ι]

theorem robust_finish {β : Type} {id : Nat} {dec : Response → Except Err β}
    {k : Except Err β → Prog HelperSig α}
    (hk : ∀ ans s', Interf i c s s' → s'.Ok F →
      (∀ b, ans = .ok b → ∃ resp, reply? s'.server id = some resp ∧ dec resp = .ok b) →
      Robust (discipline F cfg) i (k ans) Q c s') :
    Robust (discipline F cfg) i ((LeaseClient.finish id dec).bind k) Q c s := by
  unfold LeaseClient.finish
  refine robust_await fun ans s' he hok hreply => ?_
  cases ans with
  | error e => exact hk _ s' he hok fun b hb => by cases hb
  | ok resp => exact hk _ s' he hok fun b hb => ⟨resp, hreply resp rfl, hb⟩

/-- A positive answer to the Pod's Acquire backs the request's start plus
the TTL. -/
theorem robust_acquire {k : Except Err AcquireResult → Prog HelperSig α}
    (hclock : cfg.clock = .single) (hs : s.Ok F) (hτ : τ ≤ s.clock)
    (hk : ∀ ans s', Interf i c s s' → s'.Ok F →
      (∀ res, ans = .ok res → res.acquired = true →
        Backed F s'.server c.pod res.fencingToken (τ + F.ttl c.pod)) →
      Robust (discipline F cfg) i (k ans) Q c s') :
    Robust (discipline F cfg) i
      ((LeaseClient.acquire F.key (F.holder c.pod) (F.ttl c.pod)).bind k) Q c s := by
  refine robust_post (k := fun id => (LeaseClient.finish id decode).bind k) hs
    (acquire_op F c.pod) rfl (.inl rfl) hτ fun id s₁ he₁ hs₁ hsent => ?_
  refine robust_finish fun ans s₂ he₂ hs₂ hans => hk ans s₂ (he₁.trans he₂) hs₂ fun res hres hacq => ?_
  obtain ⟨resp, hreply, hdec⟩ := hans res hres
  obtain ⟨t₀, hp⟩ := hs₂.server
  obtain ⟨x, hx, _, hg, _⟩ := acquired_grants hclock hp (acquire_op F c.pod)
    (hsent.reaches he₂.1) hreply hdec hacq
  exact .of_grants hx hg

/-- A positive answer to the Pod's Renew backs the request's start plus
the TTL under the token that was sent. -/
theorem robust_renew {token : Int} {k : Except Err AcquireResult → Prog HelperSig α}
    (hclock : cfg.clock = .single) (hs : s.Ok F) (hτ : τ ≤ s.clock)
    (hk : ∀ ans s', Interf i c s s' → s'.Ok F →
      (∀ res, ans = .ok res → res.acquired = true → res.fencingToken = token ∧
        Backed F s'.server c.pod token (τ + F.ttl c.pod)) →
      Robust (discipline F cfg) i (k ans) Q c s') :
    Robust (discipline F cfg) i
      ((LeaseClient.renew F.key (F.holder c.pod) token (F.ttl c.pod)).bind k) Q c s := by
  refine robust_post (k := fun id => (LeaseClient.finish id decode).bind k) hs
    (renew_op F c.pod token) rfl (.inl rfl) hτ fun id s₁ he₁ hs₁ hsent => ?_
  refine robust_finish fun ans s₂ he₂ hs₂ hans => hk ans s₂ (he₁.trans he₂) hs₂ fun res hres hacq => ?_
  obtain ⟨resp, hreply, hdec⟩ := hans res hres
  obtain ⟨t₀, hp⟩ := hs₂.server
  obtain ⟨htok, x, hx, _, hg, _⟩ := renewed_grants hclock hp (renew_op F c.pod token)
    (hsent.reaches he₂.1) hreply hdec hacq
  exact ⟨htok, .of_grants hx hg⟩

end Requests

/-! ## The renewer -/

section Renewer

variable {ι : Type} {F : Fleet ι} {cfg : Server.Config} {i : Nat} {c : Start ι}
variable {s s' : Site ι cfg} {r : Renewer}

/-- `r` is the renewer of thread `i`, which runs Pod `c.pod`'s sidecar. -/
structure At (F : Fleet ι) (i : Nat) (c : Start ι) (r : Renewer) (s : Site ι cfg) : Prop where
  sidecar : c.what.isSidecar = true
  cfg : r.cfg = F.config c.pod
  holder : r.rt.holder = F.holder c.pod
  mine : Mine i c r.rt s

theorem At.interf (h : At F i c r s) (he : Interf i c s s') : At F i c r s' :=
  ⟨h.sidecar, h.cfg, h.holder, h.mine.interf h.sidecar he⟩

theorem At.key (h : At F i c r s) : r.cfg.key = F.key := by
  rw [h.cfg]
  exact F.config_key c.pod

theorem At.ttl (h : At F i c r s) : r.cfg.ttl = F.ttl c.pod := by
  rw [h.cfg]
  rfl

/-- Without a confirmed deadline there is nothing to back. -/
theorem confirmed_of_zero {rt : Runtime} {p : Pool (Server.machine cfg)} {j : ι}
    (h : rt.expiresAt = zeroTime) : Confirmed F p j rt := fun _ hz => absurd h hz

/-- What the sidecar believes is backed, while it owns the Pod. -/
theorem At.confirmed (h : At F i c r s) (hs : s.Ok F) (hown : (s.pods c.pod).owner = some i) :
    Confirmed F s.server c.pod r.rt := by
  have hconf := hs.confirmed c.pod
  rw [h.mine hown] at hconf
  exact hconf

variable [DecidableEq ι]

/-- The postcondition of the renewer's steps. -/
def Keeps (F : Fleet ι) (i : Nat) (c : Start ι) (r : Renewer) (c' : Start ι) (s : Site ι cfg) :
    Prop := c' = c ∧ At F i c r s

theorem robust_keeps (h : At F i c r s) :
    Robust (discipline F cfg) i (.ret r) (Keeps F i c) c s :=
  fun _ he _ => ⟨rfl, h.interf he⟩

theorem robust_set {α : Type} {Q : α → Start ι → Site ι cfg → Prop} {rt : Runtime}
    {k : Renewer → Prog HelperSig α} (hside : c.what.isSidecar = true)
    (hcfg : r.cfg = F.config c.pod) (hh : rt.holder = F.holder c.pod)
    (hconf : ∀ s', Interf i c s s' → s'.Ok F → (s'.pods c.pod).owner = some i →
      Confirmed F s'.server c.pod rt)
    (hk : ∀ s', s.server.Reaches s'.server → s'.Ok F → At F i c { r with rt := rt } s' →
      Robust (discipline F cfg) i (k { r with rt := rt }) Q c s') :
    Robust (discipline F cfg) i ((r.set rt).bind k) Q c s :=
  robust_assign (k := fun _ => k { r with rt := rt }) hside hconf
    fun s' hr hs' hmine => hk s' hr hs' ⟨hside, hcfg, hh, hmine⟩

theorem robust_hold {α : Type} {Q : α → Start ι → Site ι cfg → Prop}
    {k : Except Err Unit × Renewer → Prog HelperSig α} (h : At F i c r s)
    (hk : ∀ err e s', Interf i c s s' → s'.Ok F → At F i c { r with enforcer := e } s' →
      Robust (discipline F cfg) i (k (err, { r with enforcer := e })) Q c s') :
    Robust (discipline F cfg) i (r.hold.bind k) Q c s := by
  refine Robust.bind (Robust.bind (robust_plain (plain_enforcerHold r.enforcer) ?_))
  intro a s₁ he₁ hs₁ s₂ he₂ hs₂
  have h₂ := (h.interf he₁).interf he₂
  exact hk a.1 a.2 s₂ (he₁.trans he₂) hs₂
    ⟨h₂.sidecar, h₂.cfg, h₂.holder, h₂.mine⟩

theorem robust_ungate (h : At F i c r s) :
    Robust (discipline F cfg) i r.ungate (Keeps F i c) c s := by
  refine Robust.bind (robust_plain (plain_enforcerRelease r.enforcer) ?_)
  intro a s₁ he₁ hs₁
  have h₁ := h.interf he₁
  exact robust_keeps (r := { r with enforcer := a.2 }) ⟨h₁.sidecar, h₁.cfg, h₁.holder, h₁.mine⟩

theorem robust_lose (h : At F i c r s) :
    Robust (discipline F cfg) i r.lose (Keeps F i c) c s := by
  unfold Renewer.lose
  refine robust_set h.sidecar h.cfg h.holder (fun _ _ _ _ hheld => nomatch hheld)
    fun s₁ _ _ h₁ => ?_
  exact robust_hold h₁ fun err e s₂ _ _ h₂ => robust_keeps h₂

theorem robust_loadHandoff (hside : c.what.isSidecar = true) (hcfg : r.cfg = F.config c.pod) :
    Robust (discipline F cfg) i r.loadHandoff (Keeps F i c) c s := by
  have hh : r.cfg.holder = F.holder c.pod := by
    rw [hcfg]
    rfl
  unfold Renewer.loadHandoff
  refine robust_set hside hcfg hh (fun _ _ _ _ hheld => nomatch hheld) fun s₁ _ _ h₁ => ?_
  refine robust_set hside hcfg hh (fun _ _ _ _ => confirmed_of_zero rfl) fun s₂ _ _ h₂ => ?_
  refine Robust.bind (robust_plain plain_readHolder fun holder s₃ he₃ _ => ?_)
  refine Robust.bind (robust_plain plain_readToken fun token s₄ he₄ _ => ?_)
  have h₄ := (h₂.interf he₃).interf he₄
  split
  · split
    · -- a matching handoff: held, but no deadline is confirmed
      rename_i hmatch
      refine robust_set hside hcfg (hmatch.1.trans hh) (fun _ _ _ _ => confirmed_of_zero rfl)
        fun s₅ _ _ h₅ => robust_keeps h₅
    · exact robust_keeps h₄
  · exact robust_keeps h₄

theorem robust_renewed {deadline started : Time} {ans : Except Err AcquireResult}
    (h : At F i c r s) (hs : s.Ok F)
    (hans : ∀ res, ans = .ok res → res.acquired = true → res.fencingToken = r.rt.token ∧
      Backed F s.server c.pod r.rt.token (started + F.ttl c.pod)) :
    Robust (discipline F cfg) i (r.renewed deadline started ans) (Keeps F i c) c s := by
  unfold Renewer.renewed
  split
  · split
    · exact robust_lose h
    · refine robust_now fun s₁ he₁ _ => ?_
      split
      · exact robust_lose (h.interf he₁)
      · exact robust_keeps (h.interf he₁)
  · next res =>
    split
    · exact robust_lose h
    rename_i hacq
    obtain ⟨htok, hback⟩ := hans res rfl (by simpa using hacq)
    refine Robust.bind (robust_plain (plain_renewedTooLate r _ _) fun late s₁ he₁ hs₁ => ?_)
    have h₁ := h.interf he₁
    split
    · exact robust_lose h₁
    -- the token is the one already held, so the old deadline stays backed
    refine robust_set h.sidecar h.cfg h.holder (fun s₂ he₂ hs₂ hown => ?_)
      fun s₂ hr₂ hs₂ h₂ => ?_
    · rw [htok]
      exact (h₁.interf he₂).confirmed hs₂ hown
    · refine robust_set h.sidecar h.cfg h.holder (fun s₃ he₃ hs₃ _ _ _ => ?_)
        fun s₃ _ _ h₃ => robust_ungate h₃
      show Backed F s₃.server c.pod res.fencingToken (started + r.cfg.ttl)
      rw [htok, h.ttl]
      exact hback.reaches hs.server (he₁.1.trans (hr₂.trans he₃.1))

theorem robust_tickHeld (hclock : cfg.clock = .single) (h : At F i c r s) :
    Robust (discipline F cfg) i r.tickHeld (Keeps F i c) c s := by
  unfold Renewer.tickHeld
  refine robust_now fun s₁ he₁ hs₁ => ?_
  have h₁ := h.interf he₁
  split
  · exact robust_lose h₁
  refine Robust.bind (robust_plain (plain_tickCtx r) fun deadline s₂ he₂ hs₂ => ?_)
  have h₂ := h₁.interf he₂
  rw [h.key, h.holder, h.ttl]
  refine robust_renew hclock hs₂ (reaches_suffix hs₁.server he₂.1).2 fun ans s₃ he₃ hs₃ hans => ?_
  exact robust_renewed (h₂.interf he₃) hs₃ hans

theorem robust_reacquired {deadline started : Time} {ans : Except Err AcquireResult}
    (h : At F i c r s) (hs : s.Ok F) (hheld : r.rt.held = false)
    (hans : ∀ res, ans = .ok res → res.acquired = true →
      Backed F s.server c.pod res.fencingToken (started + F.ttl c.pod)) :
    Robust (discipline F cfg) i (r.reacquired deadline started ans) (Keeps F i c) c s := by
  unfold Renewer.reacquired
  split
  · exact robust_keeps h
  rename_i res
  split
  · exact robust_keeps h
  rename_i hacq
  have hback := hans res rfl (by simpa using hacq)
  refine Robust.bind (robust_plain (plain_acquiredTooLate r _ _) fun late s₁ he₁ hs₁ => ?_)
  have h₁ := h.interf he₁
  split
  · exact robust_keeps h₁
  -- not held yet: token and deadline may be changed one after the other
  have hnot : ∀ {rt : Runtime} {p : Pool (Server.machine cfg)}, rt.held = r.rt.held →
      Confirmed F p c.pod rt := by
    intro rt p hrt hyes
    rw [hrt, hheld] at hyes
    cases hyes
  refine robust_set h.sidecar h.cfg h.holder (fun s₂ _ _ _ => hnot (by rfl))
    fun s₂ hr₂ hs₂ h₂ => ?_
  refine robust_set h.sidecar h.cfg h.holder (fun s₃ _ _ _ => hnot (by rfl))
    fun s₃ hr₃ hs₃ h₃ => ?_
  refine robust_set h.sidecar h.cfg h.holder (fun s₄ he₄ hs₄ _ _ _ => ?_)
    fun s₄ _ _ h₄ => ?_
  · show Backed F s₄.server c.pod res.fencingToken (started + r.cfg.ttl)
    rw [h.ttl]
    exact hback.reaches hs.server (he₁.1.trans (hr₂.trans (hr₃.trans he₄.1)))
  · refine Robust.bind (robust_plain (plain_writeAcquired h₄.holder _) fun _ s₅ he₅ _ => ?_)
    exact robust_ungate (h₄.interf he₅)

theorem robust_tickReacquire (hclock : cfg.clock = .single) (h : At F i c r s)
    (hheld : r.rt.held = false) :
    Robust (discipline F cfg) i r.tickReacquire (Keeps F i c) c s := by
  unfold Renewer.tickReacquire
  refine robust_hold h fun _ e s₁ he₁ hs₁ h₁ => ?_
  refine Robust.bind (robust_plain (plain_tickCtx _) fun deadline s₂ he₂ hs₂ => ?_)
  refine robust_now fun s₃ he₃ hs₃ => ?_
  have h₃ := (h₁.interf he₂).interf he₃
  rw [h₃.key, h₃.holder, h₃.ttl]
  refine robust_acquire hclock hs₃ (Int.le_refl _) fun ans s₄ he₄ hs₄ hans => ?_
  exact robust_reacquired (h₃.interf he₄) hs₄ hheld hans

theorem robust_shutdown (h : At F i c r s) (hs : s.Ok F) :
    Robust (discipline F cfg) i r.shutdown (fun _ _ _ => True) c s := by
  unfold Renewer.shutdown
  split
  · rw [h.key, h.holder]
    refine robust_post (τ := s.clock)
      (k := fun id => (LeaseClient.finish id decodeRelease).bind fun _ => .ret ()) hs
      rfl rfl (.inr ⟨rfl, rfl⟩) (Int.le_refl _) fun id s₁ _ _ _ => ?_
    exact robust_finish fun _ s₂ _ _ _ _ _ _ => trivial
  · exact fun _ _ _ => trivial

theorem robust_loop (hclock : cfg.clock = .single) (n : Nat) (h : At F i c r s) :
    Robust (discipline F cfg) i (r.loop n) (fun _ _ _ => True) c s := by
  induction n generalizing r s with
  | zero => exact fun _ _ _ => trivial
  | succ n ih =>
    unfold Renewer.loop
    refine Robust.bind (robust_plain (plain_expiryTimer r) fun timer s₁ he₁ hs₁ => ?_)
    refine Robust.bind (robust_plain ⟨⟨rfl, trivial⟩, fun _ => trivial⟩ fun event s₂ he₂ hs₂ => ?_)
    have h₂ := (h.interf he₁).interf he₂
    have hnext : ∀ r' c' s', s'.Ok F → Keeps F i c r' c' s' →
        Robust (discipline F cfg) i (r'.loop n) (fun _ _ _ => True) c' s' := by
      intro r' c' s' _ hkeep
      obtain ⟨rfl, h'⟩ := hkeep
      exact ih h'
    cases event with
    | done => exact Robust.bind ((robust_shutdown h₂ hs₂).mono fun _ _ _ _ _ _ _ _ => trivial)
    | expiry => exact Robust.bind ((robust_lose h₂).mono hnext)
    | tick =>
      dsimp only
      cases hheld : r.rt.held with
      | true => exact Robust.bind ((robust_tickHeld hclock h₂).mono hnext)
      | false => exact Robust.bind ((robust_tickReacquire hclock h₂ hheld).mono hnext)

theorem robust_confirm (hclock : cfg.clock = .single) (h : At F i c r s) :
    Robust (discipline F cfg) i r.confirm (Keeps F i c) c s := by
  unfold Renewer.confirm
  split
  · refine Robust.bind (robust_plain ⟨⟨rfl, trivial⟩, fun _ => trivial⟩ fun cancelled s₁ he₁ _ => ?_)
    split
    · exact robust_keeps (h.interf he₁)
    · exact robust_tickHeld hclock (h.interf he₁)
  · exact robust_keeps h

theorem robust_run (hclock : cfg.clock = .single) (n : Nat) (hside : c.what.isSidecar = true)
    (hcfg : r.cfg = F.config c.pod) :
    Robust (discipline F cfg) i (r.run n) (fun _ _ _ => True) c s := by
  refine Robust.bind ((robust_loadHandoff hside hcfg).mono ?_)
  intro r₁ c₁ s₁ _ hkeep
  obtain ⟨rfl, h₁⟩ := hkeep
  refine robust_hold h₁ fun err e s₂ _ _ h₂ => ?_
  cases err with
  | error e => exact fun _ _ _ => trivial
  | ok u =>
    refine Robust.bind ((robust_confirm hclock h₂).mono ?_)
    intro r₃ c₃ s₃ _ hkeep
    obtain ⟨rfl, h₃⟩ := hkeep
    exact robust_loop hclock n h₃

end Renewer

/-! ## The init container -/

section Init

variable {ι : Type} [DecidableEq ι] {F : Fleet ι} {cfg : Server.Config} {i : Nat} {c : Start ι}
variable {s : Site ι cfg}

theorem robust_initHold (hclock : cfg.clock = .single) (n : Nat) (hs : s.Ok F) :
    Robust (discipline F cfg) i (hold (F.config c.pod) n) (fun _ _ _ => True) c s := by
  induction n generalizing s with
  | zero => exact fun _ _ _ => trivial
  | succ n ih =>
    have hpause : ∀ s' : Site ι cfg, Robust (discipline F cfg) i
        (pause (F.config c.pod) (hold (F.config c.pod) n)) (fun _ _ _ => True) c s' := by
      intro s'
      refine Robust.bind (robust_plain ⟨⟨rfl, trivial⟩, fun _ => trivial⟩ fun more s₁ _ hs₁ => ?_)
      split
      · exact ih hs₁
      · exact fun _ _ _ => trivial
    unfold hold
    rw [F.config_key c.pod]
    refine robust_acquire hclock hs (Int.le_refl _) fun ans s₁ _ _ _ => ?_
    cases ans with
    | error e => exact hpause s₁
    | ok res =>
      dsimp only
      split
      · exact robust_plain (plain_handOff _ _) fun _ _ _ _ => trivial
      · exact hpause s₁

end Init

/-- Every process keeps the discipline from the moment it enters. -/
theorem robust_process {ι : Type} [DecidableEq ι] {F : Fleet ι} {cfg : Server.Config} {i : Nat}
    {c : Start ι} {s : Site ι cfg} (hclock : cfg.clock = .single) (hs : s.Ok F) :
    Robust (discipline F cfg) i (process F c) (fun _ _ _ => True) c s := by
  have hret : ∀ (a : Exit) (c' : Start ι) (s' : Site ι cfg),
      Robust (discipline F cfg) i (.ret a) (fun _ _ _ => True) c' s' :=
    fun _ _ _ _ _ _ => trivial
  unfold process
  split
  · next n hwhat => exact Robust.bind ((robust_initHold hclock n hs).mono fun _ _ _ _ _ => hret _ _ _)
  rename_i n hwhat
  have hside : c.what.isSidecar = true := by
    rw [hwhat]
    rfl
  exact Robust.bind ((robust_run hclock n hside rfl).mono fun _ _ _ _ _ => hret _ _ _)

end Berth.Acquire
