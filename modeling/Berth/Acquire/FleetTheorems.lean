/-
Berth.Acquire.FleetTheorems — the discipline of the helpers' processes.

`Site.Ok` is the invariant. The server's pool is one of its runs, so
everything proved about the server applies at every instant. Every request
on the contended lease for a Pod's holder asks for that Pod's TTL, unless
it is the Release of a Pod that is shutting down. And whatever a sidecar
believes is backed by a write in the server's log: a confirmed deadline is
no later than the expiry some write stored for that holder and token.

The last point never has to be defended against anyone: the log only
grows. What it is worth at an instant is a property of histories
(`History.kept_until`).
-/
import Berth.Acquire.Effects
import Berth.Acquire.Fleet
import Berth.Client.LeasesTheorems

namespace Berth.Acquire

open Berth.Interleave Berth.Lease Berth.Api Berth.Client

variable {ι : Type} {F : Fleet ι} {cfg : Server.Config}
variable {i : Nat} {c : Start ι} {s s' s'' : Site ι cfg}

/-! ## Invariant -/

/-- The log has a write for Pod `j` under `tok` whose expiry is `D` or
later. -/
def Backed (F : Fleet ι) (p : Pool (Server.machine cfg)) (j : ι) (tok : Int) (D : Time) : Prop :=
  ∃ x ∈ p.shared.writes, x.new.key = F.key ∧ HeldBy (F.holder j) tok (some x.new) ∧
    F.holder j ≠ "" ∧ D ≤ x.new.expiresAt

/-- A confirmed deadline is backed. -/
def Confirmed (F : Fleet ι) (p : Pool (Server.machine cfg)) (j : ι) (rt : Runtime) : Prop :=
  rt.held = true → rt.expiresAt ≠ zeroTime → Backed F p j rt.token rt.expiresAt

/-- A call on the contended lease for a Pod asks for that Pod's TTL, or
the Pod is releasing it. -/
def Obeys (F : Fleet ι) (pods : ι → Pod) (call : Server.Call) : Prop :=
  ∀ op, call.op = some op → op.key? = some F.key → ∀ j, op.holder? = some (F.holder j) →
    op.ttl? = some (F.ttl j) ∨ op.ttl? = none ∧ (pods j).releasing = true

structure Site.Ok (F : Fleet ι) (s : Site ι cfg) : Prop where
  server : ∃ t₀, (Server.fresh cfg t₀).Reaches s.server
  requests : ∀ call ∈ s.server.calls, Obeys F s.pods call
  confirmed : ∀ j, Confirmed F s.server j (s.pods j).rt

theorem reaches_suffix {p q : Pool (Server.machine cfg)}
    (hp : ∃ t₀, (Server.fresh cfg t₀).Reaches p) (h : p.Reaches q) :
    Server.Later p.shared q.shared := by
  obtain ⟨t₀, hp⟩ := hp
  exact Server.reaches_later hp h

theorem Backed.reaches {p q : Pool (Server.machine cfg)} {j : ι} {tok : Int} {D : Time}
    (h : Backed F p j tok D) (hp : ∃ t₀, (Server.fresh cfg t₀).Reaches p) (hr : p.Reaches q) :
    Backed F q j tok D := by
  obtain ⟨x, hx, hrest⟩ := h
  exact ⟨x, (reaches_suffix hp hr).1.subset hx, hrest⟩

theorem Confirmed.reaches {p q : Pool (Server.machine cfg)} {j : ι} {rt : Runtime}
    (h : Confirmed F p j rt) (hp : ∃ t₀, (Server.fresh cfg t₀).Reaches p) (hr : p.Reaches q) :
    Confirmed F q j rt :=
  fun hheld hz => (h hheld hz).reaches hp hr

theorem Obeys.mono {pods pods' : ι → Pod} {call : Server.Call} (h : Obeys F pods call)
    (hrel : ∀ j, (pods j).releasing = true → (pods' j).releasing = true) :
    Obeys F pods' call := by
  intro op hop hk j hj
  rcases h op hop hk j hj with h | ⟨h, hr⟩
  · exact .inl h
  · exact .inr ⟨h, hrel j hr⟩

/-! ## Guarantee and interference -/

/-- What a thread finds changed between two of its own steps: the server
went on, and as long as the thread still owns its Pod nobody else touched
the Pod's runtime state. -/
def Interf (i : Nat) (c : Start ι) (s s' : Site ι cfg) : Prop :=
  s.server.Reaches s'.server ∧
    (c.what.isSidecar = true → (s'.pods c.pod).owner = some i →
      (s.pods c.pod).owner = some i ∧ (s'.pods c.pod).rt = (s.pods c.pod).rt)

/-- What one step of a thread may change: its own Pod's runtime state if
it is the Pod's sidecar, and nobody else's. -/
structure Moves (i : Nat) (c : Start ι) (s s' : Site ι cfg) : Prop where
  server : s.server.Reaches s'.server
  others : ∀ j, j ≠ c.pod → s'.pods j = s.pods j
  owner : (s'.pods c.pod).owner = (s.pods c.pod).owner
  own : c.what.isSidecar = true → (s.pods c.pod).owner = some i
  init : c.what.isSidecar = false → (s'.pods c.pod).rt = (s.pods c.pod).rt

theorem Moves.interf {j : Nat} {c' : Start ι} (h : Moves i c s s') (hij : i ≠ j) :
    Interf j c' s s' := by
  refine ⟨h.server, fun _ hown => ?_⟩
  by_cases hpod : c'.pod = c.pod
  · rw [hpod] at hown ⊢
    rw [h.owner] at hown
    cases hside : c.what.isSidecar with
    | true =>
      have := h.own hside
      rw [hown, Option.some.injEq] at this
      exact absurd this.symm hij
    | false => exact ⟨hown, h.init hside⟩
  · rw [h.others _ hpod] at hown ⊢
    exact ⟨hown, rfl⟩

theorem Interf.refl (i : Nat) (c : Start ι) (s : Site ι cfg) : Interf i c s s :=
  ⟨Relation.ReflTransGen.refl, fun _ h => ⟨h, rfl⟩⟩

theorem Interf.trans (h : Interf i c s s') (h' : Interf i c s' s'') : Interf i c s s'' := by
  refine ⟨h.1.trans h'.1, fun hside hown => ?_⟩
  obtain ⟨hown', hrt'⟩ := h'.2 hside hown
  obtain ⟨hown₀, hrt⟩ := h.2 hside hown'
  exact ⟨hown₀, hrt'.trans hrt⟩

/-- While thread `i` owns the Pod, `rt` is the Pod's runtime state. -/
def Mine (i : Nat) (c : Start ι) (rt : Runtime) (s : Site ι cfg) : Prop :=
  (s.pods c.pod).owner = some i → (s.pods c.pod).rt = rt

theorem Mine.interf {rt : Runtime} (h : Mine i c rt s) (hside : c.what.isSidecar = true)
    (he : Interf i c s s') : Mine i c rt s' := by
  intro hown
  obtain ⟨hown₀, hrt⟩ := he.2 hside hown
  rw [hrt]
  exact h hown₀

theorem foreign_obeys (f : ForeignCall F) (pods : ι → Pod) : Obeys F pods f.call :=
  fun op hop hk j hj => absurd hj (f.foreign op hop hk j)

/-- A step of the server keeps the invariant, if a call it starts obeys. -/
theorem Site.Ok.serve {a : Action (Server.machine cfg)} {p : Pool (Server.machine cfg)}
    (h : s.Ok F) (hp : s.server.step a = some p)
    (hcall : ∀ call, a = .spawn call → Obeys F s.pods call) :
    Site.Ok F { s with server := p } := by
  have hstep : s.server.Reaches p := Relation.ReflTransGen.single ⟨a, hp⟩
  obtain ⟨t₀, h₀⟩ := h.server
  refine ⟨⟨t₀, h₀.trans hstep⟩, fun call hc => ?_, fun j => (h.confirmed j).reaches h.server hstep⟩
  rcases Pool.mem_calls_step hp hc with hc | hc
  · exact h.requests call hc
  · exact hcall call hc

/-! ## Starts and the environment -/

variable [DecidableEq ι]

theorem update_self (j : ι) (f : Pod → Pod) : (s.update j f).pods j = f (s.pods j) := by
  simp [Site.update]

theorem update_of_ne {j j' : ι} (h : j' ≠ j) (f : Pod → Pod) :
    (s.update j f).pods j' = s.pods j' := by
  simp [Site.update, h]

/-- A change of a state directory is no change of anything else. -/
theorem setDir_pods (s : Site ι cfg) (j j' : ι) (d : StateDir) :
    ((s.setDir j d).pods j').owner = (s.pods j').owner ∧
      ((s.setDir j d).pods j').rt = (s.pods j').rt ∧
      ((s.setDir j d).pods j').releasing = (s.pods j').releasing := by
  by_cases h : j' = j
  · subst h
    simp [Site.setDir, update_self]
  · simp [Site.setDir, update_of_ne h]

theorem setDir_interf (s : Site ι cfg) (j : ι) (d : StateDir) : Interf i c s (s.setDir j d) := by
  obtain ⟨hown, hrt, _⟩ := setDir_pods s j c.pod d
  exact ⟨Relation.ReflTransGen.refl, fun _ h => ⟨hown ▸ h, hrt⟩⟩

theorem Site.Ok.setDir (h : s.Ok F) (j : ι) (d : StateDir) : (s.setDir j d).Ok F where
  server := h.server
  requests := fun call hcall => (h.requests call hcall).mono fun j' hj' => by
    rw [(setDir_pods s j j' d).2.2]
    exact hj'
  confirmed := fun j' => by
    rw [(setDir_pods s j j' d).2.1]
    exact h.confirmed j'

/-- Everything an environment step can do. -/
theorem env_cases {e : Env F} (h : envStep e s = some s') :
    (∃ j d, s' = s.setDir j d) ∨
    (∃ a p, s.server.step a = some p ∧ s' = { s with server := p } ∧
      ∀ call, a = .spawn call → ∃ f : ForeignCall F, call = f.call) := by
  cases e with
  | disk j d => exact .inl ⟨j, d, (Option.some.inj h).symm⟩
  | call f =>
    simp only [envStep, Env.action?, Option.bind_some, Option.map_eq_some_iff] at h
    obtain ⟨p, hp, rfl⟩ := h
    exact .inr ⟨_, p, hp, rfl, fun call hcall => ⟨f, (Action.spawn.inj hcall).symm⟩⟩
  | serve k ch =>
    simp only [envStep, Env.action?, Option.bind_some, Option.map_eq_some_iff] at h
    obtain ⟨p, hp, rfl⟩ := h
    exact .inr ⟨_, p, hp, rfl, fun call hcall => nomatch hcall⟩
  | tick t =>
    simp only [envStep, Env.action?, Option.bind_some, Option.map_eq_some_iff] at h
    obtain ⟨p, hp, rfl⟩ := h
    exact .inr ⟨_, p, hp, rfl, fun call hcall => nomatch hcall⟩

/-- Everything a start can do. -/
theorem enter_cases {n : Nat} {c' : Start ι} (h : enter n c s = some (c', s')) :
    c' = c ∧ ((c.what.isSidecar = false ∧ s' = s) ∨
      (c.what.isSidecar = true ∧ (s.pods c.pod).releasing = false ∧
        s' = s.update c.pod fun p => { p with owner := some n, rt := {} })) := by
  unfold enter at h
  cases hside : c.what.isSidecar with
  | false =>
    simp only [hside] at h
    cases h
    exact ⟨rfl, .inl ⟨rfl, rfl⟩⟩
  | true =>
    simp only [hside, if_true] at h
    split at h
    · cases h
    · next hrel =>
      cases h
      exact ⟨rfl, .inr ⟨rfl, by simpa using hrel, rfl⟩⟩

/-- A sidecar that starts believes nothing yet. -/
theorem Site.Ok.enter {n : Nat} {c' : Start ι} (h : s.Ok F)
    (he : Acquire.enter n c s = some (c', s')) : s'.Ok F := by
  obtain ⟨_, ⟨_, rfl⟩ | ⟨_, _, rfl⟩⟩ := enter_cases he
  · exact h
  refine ⟨h.server, fun call hcall => (h.requests call hcall).mono fun j hj => ?_, fun j => ?_⟩
  · by_cases hj' : j = c.pod
    · subst hj'
      rw [update_self]
      exact hj
    · rw [update_of_ne hj']
      exact hj
  · by_cases hj' : j = c.pod
    · subst hj'
      rw [update_self]
      exact fun hheld => nomatch hheld
    · rw [update_of_ne hj']
      exact h.confirmed j

/-- For every other thread a start only takes ownership away. -/
theorem enter_interf {n j : Nat} {c' c₀ : Start ι} (hn : n ≠ j)
    (he : enter n c s = some (c₀, s')) : Interf j c' s s' := by
  obtain ⟨_, ⟨_, rfl⟩ | ⟨_, _, rfl⟩⟩ := enter_cases he
  · exact Interf.refl j c' _
  refine ⟨Relation.ReflTransGen.refl, fun _ hown => ?_⟩
  by_cases h : c'.pod = c.pod
  · rw [h, update_self] at hown
    exact absurd (Option.some.inj hown) hn
  · rw [update_of_ne h] at hown ⊢
    exact ⟨hown, rfl⟩

theorem Site.Ok.env {e : Env F} (h : s.Ok F) (he : envStep e s = some s') : s'.Ok F := by
  rcases env_cases he with ⟨j, d, rfl⟩ | ⟨a, p, hp, rfl, hspawn⟩
  · exact h.setDir j d
  · refine h.serve hp fun call hcall => ?_
    obtain ⟨f, rfl⟩ := hspawn call hcall
    exact foreign_obeys f s.pods

theorem env_interf {e : Env F} (he : envStep e s = some s') : Interf i c s s' := by
  rcases env_cases he with ⟨j, d, rfl⟩ | ⟨a, p, hp, rfl, _⟩
  · exact setDir_interf s j d
  · exact ⟨Relation.ReflTransGen.single ⟨a, hp⟩, fun _ h => ⟨h, rfl⟩⟩

/-- The discipline of the processes. -/
def discipline (F : Fleet ι) (cfg : Server.Config) : Discipline (machine F cfg) where
  adm := fun _ => True
  inv := Site.Ok F
  unborn := fun _ _ => True
  guar := fun i c s s' => Moves i c s s' ∧ s'.Ok F
  interf := Interf
  refl := Interf.refl
  trans := Interf.trans
  guar_inv := fun _ _ hg => hg.2
  guar_interf := fun hij _ _ hg => hg.1.interf hij
  env_inv := fun hs _ he => hs.env he
  env_interf := fun _ _ he => env_interf he
  start_inv := fun hs _ he => hs.enter he
  start_interf := fun hn _ _ he => enter_interf hn he
  unborn_interf := fun _ _ => trivial

/-! ## One rule per effect -/

variable {α : Type} {Q : α → Start ι → Site ι cfg → Prop}

theorem exec_cases {ch : Choice} {o : HelperOp} {r : o.Res} {c' : Start ι}
    (h : exec F i ch o c s = some (r, c', s')) :
    c' = c ∧ (c.what.isSidecar = true → (s.pods c.pod).owner = some i) ∧
      execLive F ch o c s = some (r, s') := by
  unfold exec at h
  split at h
  · next halive =>
    obtain ⟨⟨r', s₁⟩, hlive, heq⟩ := Option.map_eq_some_iff.mp h
    cases heq
    refine ⟨rfl, fun hside => ?_, hlive⟩
    simpa [alive, hside] using halive
  · cases h

theorem execLive_quiet {ch : Choice} {o : HelperOp} {r : o.Res} (ho : o.quiet = true)
    (h : execLive F ch o c s = some (r, s')) : s' = s ∨ ∃ d, s' = s.setDir c.pod d := by
  cases o with
  | post key endpoint => cases ho
  | assign rt => cases ho
  | now => cases h; exact .inl rfl
  | await id =>
    simp only [execLive] at h
    split at h
    · obtain ⟨resp, _, heq⟩ := Option.map_eq_some_iff.mp h
      cases heq
      exact .inl rfl
    · cases h; exact .inl rfl
    · cases h
  | _ =>
    simp only [execLive] at h
    repeat' split at h
    all_goals first
      | (cases h; exact .inl rfl)
      | (cases h; exact .inr ⟨_, rfl⟩)
      | cases h

/-- A quiet effect looks like interference to its own thread. -/
theorem quiet_step {ch : Choice} {o : HelperOp} {r : o.Res} {c' : Start ι}
    (ho : o.quiet = true) (hs : s.Ok F) (h : exec F i ch o c s = some (r, c', s')) :
    (Moves i c s s' ∧ s'.Ok F) ∧ c' = c ∧ Interf i c s s' := by
  obtain ⟨rfl, hown, hlive⟩ := exec_cases h
  rcases execLive_quiet ho hlive with rfl | ⟨d, rfl⟩
  · exact ⟨⟨⟨Relation.ReflTransGen.refl, fun _ _ => rfl, rfl, hown, fun _ => rfl⟩, hs⟩, rfl,
      Interf.refl _ _ _⟩
  obtain ⟨howner, hrt, _⟩ := setDir_pods s c'.pod c'.pod d
  refine ⟨⟨⟨Relation.ReflTransGen.refl, fun j hj => ?_, howner, hown, fun _ => hrt⟩,
    hs.setDir _ d⟩, rfl, setDir_interf s _ d⟩
  exact update_of_ne hj _

/-- A plain program returns something and leaves the rest as interference
does. -/
theorem robust_plain {p : Prog HelperSig α} (hp : Plain (F.holder c.pod) p)
    (hQ : ∀ a s', Interf i c s s' → s'.Ok F → Q a c s') :
    Robust (discipline F cfg) i p Q c s :=
  Robust.of_only id Interf.trans (fun ho hs h => quiet_step ho.1 hs h) hp hQ

theorem robust_now {k : Time → Prog HelperSig α}
    (hk : ∀ s', Interf i c s s' → s'.Ok F → Robust (discipline F cfg) i (k s'.clock) Q c s') :
    Robust (discipline F cfg) i (now.bind k) Q c s := by
  intro s₁ he hs ch r c' s₂ hex _
  have hstep := quiet_step (o := .now) rfl hs hex
  obtain ⟨rfl, _, hlive⟩ := exec_cases (o := .now) hex
  cases hlive
  exact ⟨hstep.1, hk s₁ he hs⟩

theorem execLive_await {ch : Choice} {id : Nat} {ans : Except Err Response}
    (h : execLive F ch (.await id) c s = some (ans, s')) :
    s' = s ∧ ∀ resp, ans = .ok resp → reply? s.server id = some resp := by
  cases ch with
  | ok =>
    obtain ⟨resp, hresp, heq⟩ := Option.map_eq_some_iff.mp h
    cases heq
    exact ⟨rfl, fun resp' heq => by cases heq; exact hresp⟩
  | fail e =>
    cases h
    exact ⟨rfl, fun resp' heq => nomatch heq⟩
  | _ => cases h

theorem robust_await {id : Nat} {k : Except Err Response → Prog HelperSig α}
    (hk : ∀ ans s', Interf i c s s' → s'.Ok F →
      (∀ resp, ans = .ok resp → reply? s'.server id = some resp) →
      Robust (discipline F cfg) i (k ans) Q c s') :
    Robust (discipline F cfg) i ((await id).bind k) Q c s := by
  intro s₁ he hs ch r c' s₂ hex _
  have hstep := quiet_step (o := .await id) rfl hs hex
  obtain ⟨rfl, _, hlive⟩ := exec_cases (o := .await id) hex
  obtain ⟨rfl, hreply⟩ := execLive_await hlive
  exact ⟨hstep.1, hk r s₂ he hs hreply⟩

/-! ## Requests -/

/-- The site after process `c` has sent a request. -/
def posted (F : Fleet ι) (c : Start ι) (key : Key) (endpoint : Endpoint) (s : Site ι cfg) :
    Site ι cfg :=
  { s.update c.pod fun p => { p with releasing := p.releasing || isRelease endpoint } with
    server := (submit s.server ⟨F.identity c.pod, key, endpoint⟩).2 }

theorem posted_self (s : Site ι cfg) (key : Key) (endpoint : Endpoint) :
    (posted F c key endpoint s).pods c.pod =
      { s.pods c.pod with releasing := (s.pods c.pod).releasing || isRelease endpoint } := by
  simp [posted, Site.update]

theorem posted_of_ne (s : Site ι cfg) (key : Key) (endpoint : Endpoint) {j : ι} (h : j ≠ c.pod) :
    (posted F c key endpoint s).pods j = s.pods j := by
  simp [posted, Site.update, h]

theorem posted_pods (s : Site ι cfg) (key : Key) (endpoint : Endpoint) (j : ι) :
    ((posted F c key endpoint s).pods j).owner = (s.pods j).owner ∧
      ((posted F c key endpoint s).pods j).rt = (s.pods j).rt ∧
      ((s.pods j).releasing = true → ((posted F c key endpoint s).pods j).releasing = true) := by
  by_cases h : j = c.pod
  · subst h
    rw [posted_self]
    exact ⟨rfl, rfl, fun hr => by simp [hr]⟩
  · rw [posted_of_ne s key endpoint h]
    exact ⟨rfl, rfl, id⟩

theorem posted_interf (s : Site ι cfg) (key : Key) (endpoint : Endpoint) :
    Interf i c s (posted F c key endpoint s) := by
  obtain ⟨hown, hrt, _⟩ := posted_pods (F := F) (c := c) s key endpoint c.pod
  exact ⟨submit_reaches, fun _ h => ⟨hown ▸ h, hrt⟩⟩

theorem posted_moves {key : Key} {endpoint : Endpoint}
    (hown : c.what.isSidecar = true → (s.pods c.pod).owner = some i) :
    Moves i c s (posted F c key endpoint s) where
  server := submit_reaches
  others := fun _ hj => posted_of_ne s key endpoint hj
  owner := (posted_pods s key endpoint c.pod).1
  own := hown
  init := fun _ => (posted_pods s key endpoint c.pod).2.1

/-- The invariant survives a request for the Pod's own TTL, and a Release,
which marks the Pod. -/
theorem posted_ok {key : Key} {endpoint : Endpoint} {op : LeaseOp} (hs : s.Ok F)
    (hop : Server.requestOp ⟨F.identity c.pod, key, endpoint⟩ = some op)
    (hh : op.holder? = some (F.holder c.pod))
    (httl : op.ttl? = some (F.ttl c.pod) ∨ op.ttl? = none ∧ isRelease endpoint = true) :
    (posted F c key endpoint s).Ok F := by
  have hpods := posted_pods (F := F) (c := c) s key endpoint
  -- first mark the Pod, then let the server take the request
  have hmark : Site.Ok F { s with pods := (posted F c key endpoint s).pods } :=
    { server := hs.server
      requests := fun call hcall => (hs.requests call hcall).mono fun j => (hpods j).2.2
      confirmed := fun j => by
        show Confirmed F s.server j ((posted F c key endpoint s).pods j).rt
        rw [(hpods j).2.1]
        exact hs.confirmed j }
  refine hmark.serve submit_step fun call hcall => ?_
  cases hcall
  intro op' hop' _ j hj
  have hsome : Server.requestOp ⟨F.identity c.pod, key, endpoint⟩ = some op' := hop'
  rw [hop, Option.some.injEq] at hsome
  subst hsome
  rw [hh, Option.some.injEq] at hj
  have hpod := F.holder_inj _ _ hj
  subst hpod
  rcases httl with h | ⟨h, hrel⟩
  · exact .inl h
  refine .inr ⟨h, ?_⟩
  show ((posted F c key endpoint s).pods c.pod).releasing = true
  rw [posted_self]
  simp [hrel]

section Post

variable {key : Key} {endpoint : Endpoint} {op : LeaseOp} {k : Nat → Prog HelperSig α}

theorem robust_post {τ : Time} (hs₀ : s.Ok F)
    (hop : Server.requestOp ⟨F.identity c.pod, key, endpoint⟩ = some op)
    (hh : op.holder? = some (F.holder c.pod))
    (httl : op.ttl? = some (F.ttl c.pod) ∨ op.ttl? = none ∧ isRelease endpoint = true)
    (hτ : τ ≤ s.clock)
    (hk : ∀ id s', Interf i c s s' → s'.Ok F →
      Sent s'.server id ⟨F.identity c.pod, key, endpoint⟩ τ →
      Robust (discipline F cfg) i (k id) Q c s') :
    Robust (discipline F cfg) i ((post key endpoint).bind k) Q c s := by
  intro s₁ he hs ch r c' s₂ hex _
  obtain ⟨rfl, hown, hlive⟩ := exec_cases (o := .post key endpoint) hex
  cases hlive
  have hok := posted_ok hs hop hh httl
  refine ⟨⟨posted_moves hown, hok⟩,
    hk _ _ (Interf.trans he (posted_interf s₁ key endpoint)) hok (sent_submit ?_)⟩
  exact Int.le_trans hτ (reaches_suffix hs₀.server he.1).2

end Post

/-- An assignment keeps the invariant if what it makes the sidecar believe
is backed. -/
theorem robust_assign {rt : Runtime} {k : Unit → Prog HelperSig α}
    (hside : c.what.isSidecar = true)
    (hconf : ∀ s', Interf i c s s' → s'.Ok F → (s'.pods c.pod).owner = some i →
      Confirmed F s'.server c.pod rt)
    (hk : ∀ s', s.server.Reaches s'.server → s'.Ok F → Mine i c rt s' →
      Robust (discipline F cfg) i (k ()) Q c s') :
    Robust (discipline F cfg) i ((assign rt).bind k) Q c s := by
  intro s₁ he hs ch r c' s₂ hex _
  obtain ⟨rfl, hown, hlive⟩ := exec_cases (o := .assign rt) hex
  simp only [execLive, hside, if_true] at hlive
  cases hlive
  have hrt : ∀ j, j ≠ c'.pod → (s₁.update c'.pod fun p => { p with rt := rt }).pods j =
      s₁.pods j := fun j hj => update_of_ne hj _
  have hself : (s₁.update c'.pod fun p => { p with rt := rt }).pods c'.pod =
      { s₁.pods c'.pod with rt := rt } := update_self _ _
  have hok : (s₁.update c'.pod fun p => { p with rt := rt }).Ok F := by
    refine ⟨hs.server, fun call hcall => (hs.requests call hcall).mono fun j hj => ?_,
      fun j => ?_⟩
    · by_cases h : j = c'.pod
      · subst h
        rw [hself]
        exact hj
      · rw [hrt j h]
        exact hj
    · by_cases h : j = c'.pod
      · subst h
        rw [hself]
        exact hconf s₁ he hs (hown hside)
      · rw [hrt j h]
        exact hs.confirmed j
  refine ⟨⟨⟨Relation.ReflTransGen.refl, hrt, by rw [hself], hown, fun h => ?_⟩, hok⟩,
    hk _ he.1 hok fun _ => by rw [hself]⟩
  rw [hside] at h
  cases h

end Berth.Acquire
