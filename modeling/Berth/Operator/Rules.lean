/-
Berth.Operator.Rules — one rule per effect of an operator's thread.

A read tells what was there at some instant (`Since`), and what follows
from it for good is what the thread goes on with. A lease write names the
version it was computed from and the `Move` it makes; a Release comes from
a pass that has drained its lease.
-/
import Berth.Operator.Discipline

namespace Berth.Operator

open Berth.Interleave Berth.Lease Berth.Api Berth.Client

variable {ι : Type} [DecidableEq ι] {cfg : Server.Config} {F : Fleet ι} {j : ι} {i : Nat}
variable {t t' : Task ι} {s s' s'' : Site ι cfg} {c c' : Cluster} {l m : BerthLease} {v : Version}
variable {α : Type} {Q : α → Task ι → Site ι cfg → Prop}
variable {o : ClusterOp} {k : o.Res → Prog ClusterSig α} {r : Except ApiErr BerthLease}

/-! ## Reads -/

/-- At some instant between `s` and `s'` the thread's cluster was so. -/
def Since (F : Fleet ι) (i : Nat) (t : Task ι) (s s' : Site ι cfg) (P : Site ι cfg → Prop) : Prop :=
  ∃ s₁, Keeps F i t s s₁ ∧ s₁.Ok F ∧ P s₁ ∧ Keeps F i t s₁ s'

/-- A program of gentle effects. -/
def Gentle (p : Prog ClusterSig α) : Prop := p.Only fun o => ClusterOp.gentle o = true

theorem gentle_pure (a : α) : Gentle (pure a) := trivial

theorem gentle_effect (ho : o.gentle = true) (hk : ∀ r, Gentle (k r)) :
    Gentle ((effect o).bind k) := ⟨ho, hk⟩

theorem Gentle.bind {β : Type} {p : Prog ClusterSig α} {f : α → Prog ClusterSig β} (hp : Gentle p)
    (hf : ∀ a, Gentle (f a)) : Gentle (p.bind f) := Prog.Only.bind hp hf

theorem robust_gentle {p : Prog ClusterSig α} (hp : Gentle p)
    (hQ : ∀ a s', Keeps F i t s s' → s'.Ok F → Q a t s') :
    Robust (discipline F cfg) i p Q t s := by
  refine Robust.of_only (M := machine F cfg) (R := fun a b : Site ι cfg => Keeps F i t a b)
    ?_ ?_ ?_ hp hQ
  · exact fun h => h.toKeeps
  · exact Keeps.trans
  · exact fun ho hs h => gentle_step ho hs h

/-- One effect. -/
theorem robust_effect (h : ∀ ch r s₁ s₂, Interf F i t s s₁ → s₁.Ok F →
      (F.serial = true → ∀ k, t.what.lease? = some k →
        (s₁.clusters t.cluster).running k = some i) →
      execLive F ch o t s₁ = some (r, s₂) →
      (Moves F i t s₁ (s₂.note t.cluster i ⟨o, r⟩) ∧ (s₂.note t.cluster i ⟨o, r⟩).Ok F) ∧
        Robust (discipline F cfg) i (k r) Q t (s₂.note t.cluster i ⟨o, r⟩)) :
    Robust (discipline F cfg) i ((effect o).bind k) Q t s := by
  intro s₁ hi hok ch r t' s₂ hex _
  obtain ⟨rfl, hown, s₁', hlive, rfl⟩ := exec_cases hex
  exact h ch r s₁ s₁' hi hok hown hlive

theorem robust_read (ho : o.gentle = true) (hk : ∀ r s', s'.Ok F →
      Since F i t s s' (fun s₁ => ∃ ch s₂, execLive F ch o t s₁ = some (r, s₂)) →
      Robust (discipline F cfg) i (k r) Q t s') :
    Robust (discipline F cfg) i ((effect o).bind k) Q t s := by
  refine robust_effect fun ch r s₁ s₂ hi hok hown hlive => ?_
  obtain ⟨hstep, hentry⟩ := gentle_ok ho hok hlive
  have hg := hstep.acts.noted hown hentry
  exact ⟨hg, hk r _ hg.2 ⟨s₁, hi.toKeeps, hok, ⟨ch, s₂, hlive⟩, hstep.calm.noted⟩⟩

omit [DecidableEq ι] in
theorem Since.imp {P P' : Site ι cfg → Prop} (h : Since F i t s s' P)
    (himp : ∀ s₁, s₁.Ok F → P s₁ → P' s₁) : Since F i t s s' P' := by
  obtain ⟨s₁, h₁, hok, hp, h₂⟩ := h
  exact ⟨s₁, h₁, hok, himp s₁ hok hp, h₂⟩

omit [DecidableEq ι] in
theorem Since.keeps {P : Site ι cfg → Prop} (h : Since F i t s s' P) : Keeps F i t s s' := by
  obtain ⟨_, h₁, _, _, h₂⟩ := h
  exact h₁.trans h₂

/-- A read whose answer does not matter. -/
theorem robust_pass (ho : o.gentle = true)
    (hk : ∀ r s', s'.Ok F → Keeps F i t s s' → Robust (discipline F cfg) i (k r) Q t s') :
    Robust (discipline F cfg) i ((effect o).bind k) Q t s :=
  robust_read ho fun r s' hok hsince => hk r s' hok hsince.keeps

theorem robust_now {k : Time → Prog ClusterSig α}
    (hk : ∀ τ s', s'.Ok F → Keeps F i t s s' → Robust (discipline F cfg) i (k τ) Q t s') :
    Robust (discipline F cfg) i (now.bind k) Q t s :=
  robust_pass (o := .now) rfl hk

theorem robust_getLease {key : Key} {k : Except ApiErr BerthLease → Prog ClusterSig α}
    (hk : ∀ r s', s'.Ok F → Keeps F i t s s' →
      (∀ l, r = .ok l → l.key = key ∧
        Since F i t s s' fun s₁ => l ∈ (s₁.clusters t.cluster).leases) →
      Robust (discipline F cfg) i (k r) Q t s') :
    Robust (discipline F cfg) i ((getLease key).bind k) Q t s := by
  refine robust_read (o := .getLease key) rfl fun r s' hok hsince => hk r s' hok hsince.keeps ?_
  rintro l rfl
  obtain ⟨s₁, h₁, hok₁, ⟨ch, s₂, hx⟩, h₂⟩ := hsince
  obtain ⟨c', hc', _⟩ := execLive_local rfl hx
  simp only [execLocal] at hc'
  split at hc'
  · split at hc'
    · next l' hl =>
      cases hc'
      obtain ⟨hmem, hkey⟩ := lease?_some hl
      exact ⟨hkey, s₁, h₁, hok₁, hmem, h₂⟩
    · cases hc'
  · cases hc'
  · cases hc'

theorem robust_getObject {key : ObjectKey} {k : Except ApiErr Object → Prog ClusterSig α}
    (hk : ∀ r s', s'.Ok F → Keeps F i t s s' →
      (∀ o, r = .ok o → o.key = key ∧
        Since F i t s s' fun s₁ => ∃ q ∈ (s₁.clusters t.cluster).objects, q.object = o) →
      Robust (discipline F cfg) i (k r) Q t s') :
    Robust (discipline F cfg) i ((getObject key).bind k) Q t s := by
  refine robust_read (o := .getObject key) rfl fun r s' hok hsince => hk r s' hok hsince.keeps ?_
  rintro o rfl
  obtain ⟨s₁, h₁, hok₁, ⟨ch, s₂, hx⟩, h₂⟩ := hsince
  obtain ⟨c', hc', _⟩ := execLive_local rfl hx
  simp only [execLocal] at hc'
  split at hc'
  · split at hc'
    · next q hq =>
      cases hc'
      obtain ⟨hmem, hkey⟩ := object?_some hq
      exact ⟨hkey, s₁, h₁, hok₁, ⟨q, hmem, rfl⟩, h₂⟩
    · cases hc'
  · cases hc'
  · cases hc'

/-- A LIST has exactly the objects that it asks for. -/
theorem robust_listObjects {apiVersion kind ns : String} {label : Option String}
    {k : Except ApiErr (List Object) → Prog ClusterSig α}
    (hk : ∀ r s', s'.Ok F → Keeps F i t s s' →
      (∀ os, r = .ok os → Since F i t s s' fun s₁ => ∀ o, o ∈ os ↔
        (∃ q ∈ (s₁.clusters t.cluster).objects, q.object = o) ∧
          Cluster.selects apiVersion kind ns label o = true) →
      Robust (discipline F cfg) i (k r) Q t s') :
    Robust (discipline F cfg) i ((listObjects apiVersion kind ns label).bind k) Q t s := by
  refine robust_read (o := .listObjects apiVersion kind ns label) rfl
    fun r s' hok hsince => hk r s' hok hsince.keeps ?_
  rintro os rfl
  refine hsince.imp fun s₁ _ ⟨ch, s₂, hx⟩ => ?_
  obtain ⟨c', hc', _⟩ := execLive_local rfl hx
  simp only [execLocal] at hc'
  split at hc'
  · split at hc'
    · next hperm =>
      cases hc'
      intro o
      rw [(List.isPerm_iff.mp hperm).mem_iff, List.mem_filter, List.mem_map]
    · cases hc'
  · cases hc'
  · cases hc'

theorem robust_await {id : Nat} {budget : Duration} {k : Except Err Response → Prog ClusterSig α}
    (hk : ∀ r s', s'.Ok F → Keeps F i t s s' →
      (∀ resp, r = .ok resp → Since F i t s s' fun s₁ => reply? s₁.central id = some resp) →
      (∀ e, r = .error e → e.is .clientConflict = false) →
      Robust (discipline F cfg) i (k r) Q t s') :
    Robust (discipline F cfg) i ((await id budget).bind k) Q t s := by
  refine robust_read (o := .await id budget) rfl fun r s' hok hsince => hk r s' hok hsince.keeps ?_ ?_
  · rintro resp rfl
    refine hsince.imp fun s₁ _ ⟨ch, s₂, hx⟩ => ?_
    simp only [execLive] at hx
    split at hx
    · obtain ⟨resp', hresp, heq⟩ := Option.map_eq_some_iff.mp hx
      cases heq
      exact hresp
    · split at hx <;> cases hx
    · cases hx
  · rintro e rfl
    obtain ⟨s₁, _, _, ⟨ch, s₂, hx⟩, _⟩ := hsince
    simp only [execLive] at hx
    split at hx
    · obtain ⟨resp', _, heq⟩ := Option.map_eq_some_iff.mp hx
      cases heq
    · split at hx
      · cases hx
      · next he =>
        cases hx
        simpa using he
    · cases hx

/-! ## Knowing a version -/

/-- The thread has seen version `v` stored; if that was a stopping state
of its own lease, it is sealed. -/
structure Read (F : Fleet ι) (i : Nat) (t : Task ι) (v : Version) (s : Site ι cfg) : Prop where
  mem : v ∈ (s.clusters t.cluster).versions
  sealed : F.serial = true → v.lease.phase = .stopping → t.what.lease? = some v.lease.key →
    (s.clusters t.cluster).running v.lease.key = some i →
    Sealed (s.clusters t.cluster) v.lease.key v.lease.resourceVersion v.lease.pods

omit [DecidableEq ι] in
theorem Read.keeps (h : Read F i t v s) (hk : Keeps F i t s s') : Read F i t v s' := by
  refine ⟨hk.evolves.versions.subset h.mem, fun hserial hstop hmine hrun => ?_⟩
  obtain ⟨hrun₀, hseal⟩ := hk.own hserial _ hmine hrun
  exact hseal _ _ (h.sealed hserial hstop hmine hrun₀)

omit [DecidableEq ι] in
/-- A lease that is stored now. -/
theorem Read.of_current (hok : s.Ok F) (hl : l ∈ (s.clusters t.cluster).leases) :
    ∃ n, n ≤ s.log ∧ Read F i t ⟨l, n⟩ s := by
  obtain ⟨n, hn⟩ := (hok.clusters t.cluster).wf.current l hl
  exact ⟨n, (hok.clusters t.cluster).born _ hn, hn,
    fun _ hstop _ _ => Sealed.of_stopping (hok.clusters t.cluster) hl hstop⟩

omit [DecidableEq ι] in
theorem Since.read (h : Since F i t s s' fun s₁ => l ∈ (s₁.clusters t.cluster).leases) :
    ∃ n, n ≤ s'.log ∧ Read F i t ⟨l, n⟩ s' := by
  obtain ⟨s₁, _, hok, hl, h₂⟩ := h
  obtain ⟨n, hn, hread⟩ := Read.of_current (i := i) hok hl
  exact ⟨n, Nat.le_trans hn h₂.carries.log.length_le, hread.keeps h₂⟩

/-- A pass over the stopping lease `v` has found its Pods dead. -/
structure Drained (F : Fleet ι) (i : Nat) (t : Task ι) (v : Version) (s : Site ι cfg) : Prop where
  read : Read F i t v s
  stopping : v.lease.phase = .stopping
  mine : t.what.lease? = some v.lease.key
  dead : ∀ x ∈ v.lease.pods, Dead (s.clusters t.cluster) x.uid

omit [DecidableEq ι] in
theorem Drained.keeps (h : Drained F i t v s) (hk : Keeps F i t s s') : Drained F i t v s' :=
  ⟨h.read.keeps hk, h.stopping, h.mine, fun x hx => (h.dead x hx).evolves hk.evolves⟩

omit [DecidableEq ι] in
/-- Then the stored lease is quiet. -/
theorem Drained.quiesced (h : Drained F i t v s) (hok : s.Ok F) (hserial : F.serial = true)
    (hown : F.serial = true → ∀ k, t.what.lease? = some k →
      (s.clusters t.cluster).running k = some i)
    (hm : m ∈ (s.clusters t.cluster).leases) (huid : m.uid = v.lease.uid) :
    Quiesced (s.clusters t.cluster) m := by
  have hwf := (hok.clusters t.cluster).wf
  have hkey : m.key = v.lease.key := (hwf.same_current h.read.mem hm huid.symm).key
  have hseal := h.read.sealed hserial h.stopping h.mine (hown hserial _ h.mine)
  obtain ⟨hcalm, hpods⟩ := hseal.current hwf hm hkey
  exact ⟨hcalm, fun x hx => h.dead x (hpods hx)⟩

/-! ## Marking a release -/

omit [DecidableEq ι] in
theorem fence_fields (c : Cluster) (l : BerthLease) :
    Alike c (c.fence l) ∧ (c.fence l).running = c.running ∧ (c.fence l).journal = c.journal ∧
      (c.fence l).late = c.late ∧ (c.fence l).requests = c.requests ∧
      (c.fence l).reserved = c.reserved ∧
      ∀ u ∈ (c.fence l).fenced, u ∈ c.fenced ∨ l.spec.target.isSome = true ∧ u = l.uid := by
  unfold Cluster.fence
  split
  · next htarget =>
    refine ⟨⟨rfl, rfl, rfl, List.Subset.refl _, rfl, rfl, Grows.refl _, List.suffix_refl _⟩,
      rfl, rfl, rfl, rfl, rfl, fun u hu => ?_⟩
    rcases List.mem_cons.mp hu with rfl | hu
    · exact .inr ⟨htarget, rfl⟩
    · exact .inl hu
  · exact ⟨Alike.refl c, rfl, rfl, rfl, rfl, rfl, fun _ hu => .inl hu⟩

omit [DecidableEq ι] in
theorem fence_note {e : Event ClusterSig} : (c.fence l).note i e = (c.note i e).fence l := by
  unfold Cluster.fence
  split <;> rfl

omit [DecidableEq ι] in
/-- The release of a drained lease is marked. -/
theorem fence_ok (h : s.Ok F) (hb : Becomes s s' t.cluster ((s.clusters t.cluster).fence l))
    (hown : F.serial = true → ∀ k, t.what.lease? = some k →
      (s.clusters t.cluster).running k = some i)
    (hq : l.spec.target.isSome = true → v.lease.uid = l.uid ∧ Drained F i t v s) :
    StepOk F s s' := by
  obtain ⟨ha, hrun, hj, hlate, hreq, hres, hfenced⟩ := fence_fields (s.clusters t.cluster) l
  have hok := h.clusters t.cluster
  refine ⟨h.alike hb ha ?_ ?_ ((h.ledgers _).of_eq ha.evolves ha.objects hreq hres hj),
    Calm.alike hb ha ?_ hj hlate, hb.tidy (Tidy.of_eq ha.leases)⟩
  · rw [hlate]
    exact hok.late
  · intro hserial u hu m hm huid
    rcases hfenced u hu with hu | ⟨htarget, rfl⟩
    · exact hok.fence hserial u hu m hm huid
    · obtain ⟨hvu, hdrained⟩ := hq htarget
      exact hdrained.quiesced h hserial hown hm (huid.trans hvu.symm)
  · rw [hrun]
    exact fun _ _ hn => hn

/-! ## The central server -/

omit [DecidableEq ι] in
/-- A step that leaves the leases alone and then another. -/
theorem StepOk.andThen (h : StepOk F s s') (h' : StepOk F s' s'')
    (hl : ∀ k, (s'.clusters k).leases = (s.clusters k).leases) : StepOk F s s'' :=
  ⟨h'.ok, h.calm.trans h'.calm, fun k l hmem => h'.tidy k l (by rw [hl k]; exact hmem)⟩

omit [DecidableEq ι] in
theorem Acts.after (h : StepOk F s s') (h' : Acts F t s' s'')
    (hl : ∀ k, (s'.clusters k).leases = (s.clusters k).leases) : Acts F t s s'' where
  ok := h'.ok
  carries := h.calm.carries.trans h'.carries
  running := fun j k n hn => h.calm.running j k n (h'.running j k n hn)
  journal := fun j => (h'.journal j).trans (h.calm.journal j)
  sealed := fun j k hk rv ps hs => h'.sealed j k hk rv ps (h.calm.sealed j k rv ps hs)
  tidy := fun k l hmem => h'.tidy k l (by rw [hl k]; exact hmem)

/-- A request to the central server, sent by a cluster that has become
`c'` by marking it. -/
theorem post_ok (req : HttpRequest) (h : StepOk F s (s.set t.cluster c'))
    (hl : c'.leases = (s.clusters t.cluster).leases)
    (hcall : cfg.careful = true → ∀ (C : Contention F) j τ,
      Server.requestOp req = some (.release C.key (C.holder j) τ) →
      ∃ v ∈ (s.clusters j).versions, v.lease.central = C.key ∧ StoppedUnder v.lease τ) :
    StepOk F s { s.set t.cluster c' with central := (Client.submit s.central req).2 } := by
  have hb := Becomes.set s t.cluster c'
  refine h.andThen (serve_ok (a := .spawn (.http req)) h.ok rfl ?_) fun k => ?_
  · intro hcareful call hspawn C j τ hop
    cases hspawn
    obtain ⟨v, hv, hrest⟩ := hcall hcareful C j τ hop
    exact ⟨v, (h.calm.carries.clusters j).versions.subset hv, hrest⟩
  · by_cases hk : k = t.cluster
    · rw [hk, hb.here, hl]
    · rw [hb.others k hk]

/-- A request that is no Release. -/
theorem robust_post {key : Key} {endpoint : Endpoint} {k : Nat → Prog ClusterSig α}
    (hrel : isRelease endpoint = false)
    (hk : ∀ id s', s'.Ok F → Keeps F i t s s' →
      Posted s'.central id ⟨F.identity t.cluster, key, endpoint⟩ s.log →
      Robust (discipline F cfg) i (k id) Q t s') :
    Robust (discipline F cfg) i ((post l key endpoint).bind k) Q t s := by
  refine robust_effect (o := .post l key endpoint) fun ch r s₁ s₂ hi hok hown hlive => ?_
  have hlive : some _ = some (r, s₂) := hlive
  rw [hrel] at hlive
  cases hlive
  have hstep := post_ok ⟨F.identity t.cluster, key, endpoint⟩
    (unchanged_ok hok (Becomes.set s₁ t.cluster _)) rfl fun _ C j τ hop => by
      cases endpoint with
      | release body => cases hrel
      | acquire body => cases body <;> cases hop
      | renew body => cases body <;> cases hop
  have hg := hstep.acts.noted (i := i) (e := ⟨.post l key endpoint, (Client.submit s₁.central
    ⟨F.identity t.cluster, key, endpoint⟩).1⟩) hown ⟨fun _ _ heq => (nomatch heq),
      fun _ heq => (nomatch heq), fun _ _ _ _ heq hrel' => ?_, fun _ _ _ heq => (nomatch heq)⟩
  · refine ⟨hg, hk _ _ hg.2 (hi.toKeeps.trans hstep.calm.noted) ?_⟩
    obtain ⟨t₀, h₀⟩ := hok.server
    exact (posted_submit h₀).mono hi.carries.log.length_le
  · cases heq
    rw [hrel] at hrel'
    cases hrel'

/-- A Release for a lease that the pass has drained. -/
theorem robust_postRelease {key : Key} {holder : String} {token : Int}
    {k : Nat → Prog ClusterSig α}
    (hcall : cfg.careful = true → ∀ (C : Contention F) j, key = C.key → holder = C.holder j →
      ∃ v ∈ (s.clusters j).versions, v.lease.central = C.key ∧ StoppedUnder v.lease token)
    (hq : l.spec.target.isSome = true →
      Drained F i t v s ∧ ReleaseOf v l key (releaseEndpoint holder token))
    (hk : ∀ id s', s'.Ok F → Keeps F i t s s' →
      Posted s'.central id ⟨F.identity t.cluster, key, releaseEndpoint holder token⟩ s.log →
      Robust (discipline F cfg) i (k id) Q t s') :
    Robust (discipline F cfg) i ((post l key (releaseEndpoint holder token)).bind k) Q t s := by
  refine robust_effect (o := .post l key (releaseEndpoint holder token))
    fun ch r s₁ s₂ hi hok hown hlive => ?_
  cases hlive
  have hmark := fence_ok (l := l) (v := v) hok (Becomes.set s₁ t.cluster _) hown fun htarget =>
    ⟨(hq htarget).2.same.uid.symm, (hq htarget).1.keeps hi.toKeeps⟩
  have hstep := post_ok ⟨F.identity t.cluster, key, releaseEndpoint holder token⟩ hmark
    (fence_fields _ l).1.leases fun hcareful C j τ hop => by
      cases hop
      obtain ⟨u, hu, hrest⟩ := hcall hcareful C j rfl rfl
      exact ⟨u, (hi.carries.clusters j).versions.subset hu, hrest⟩
  have hg := hstep.acts.noted (i := i) (e := ⟨.post l key (releaseEndpoint holder token),
    (Client.submit s₁.central
      ⟨F.identity t.cluster, key, releaseEndpoint holder token⟩).1⟩) hown
    ⟨fun _ _ heq => (nomatch heq), fun _ heq => (nomatch heq), fun _ _ _ _ heq _ htarget => ?_,
      fun _ _ _ heq => (nomatch heq)⟩
  · refine ⟨hg, hk _ _ hg.2 (hi.toKeeps.trans hstep.calm.noted) ?_⟩
    obtain ⟨t₀, h₀⟩ := hok.server
    exact (posted_submit h₀).mono hi.carries.log.length_le
  · cases heq
    obtain ⟨hdrained, hof⟩ := hq htarget
    exact ⟨v, (hstep.calm.carries.clusters _).versions.subset
      (hi.evolves.versions.subset hdrained.read.mem), hof⟩

/-- A positive answer to an Acquire is backed by a write made after it was
sent. -/
theorem robust_acquire {key : Key} {holder : String} {ttl budget : Duration} {n : Nat}
    {k : Except Err AcquireResult → Prog ClusterSig α} (hn : n ≤ s.log)
    (hk : ∀ r s', s'.Ok F → Keeps F i t s s' →
      (∀ res, r = .ok res → res.acquired = true →
        Grant s'.central.shared.writes n key holder res.fencingToken (some res.expiresAt)) →
      Robust (discipline F cfg) i (k r) Q t s') :
    Robust (discipline F cfg) i ((LeaseClient.acquire l key holder ttl budget).bind k) Q t s := by
  unfold LeaseClient.acquire
  refine robust_post rfl fun id s₁ hok₁ hk₁ hposted => ?_
  refine robust_await fun ans s₂ hok₂ hk₂ hans _ => ?_
  cases ans with
  | error e => exact hk _ s₂ hok₂ (hk₁.trans hk₂) fun _ heq => by cases heq
  | ok resp =>
    refine hk _ s₂ hok₂ (hk₁.trans hk₂) fun res hres hacq => ?_
    obtain ⟨s', h₁, hok', hreply, h₂⟩ := hans resp rfl
    obtain ⟨t₀, h₀⟩ := hok₁.server
    obtain ⟨t₁, h₁'⟩ := hok'.server
    obtain ⟨x, post, hsuf, hlen, hkey, hheld, hne, hexp⟩ :=
      acquired_after h₁' rfl (hposted.reaches h₀ h₁.carries.central) hreply hres hacq
    refine Grant.mono ⟨hne, x, post, hsuf, Nat.le_trans hn hlen, hkey, hheld, fun d hd => ?_⟩
      h₂.carries.log
    cases hd
    exact Int.le_of_eq hexp

/-- After a Release that says the lease is gone, the tenure is over. -/
theorem robust_release {key : Key} {holder : String} {token : Int} {budget : Duration}
    {k : Except Err Unit → Prog ClusterSig α}
    (hcall : cfg.careful = true → ∀ (C : Contention F) j, key = C.key → holder = C.holder j →
      ∃ v ∈ (s.clusters j).versions, v.lease.central = C.key ∧ StoppedUnder v.lease token)
    (hq : l.spec.target.isSome = true →
      Drained F i t v s ∧ ReleaseOf v l key (releaseEndpoint holder token))
    (hk : ∀ r s', s'.Ok F → Keeps F i t s s' →
      (r = .ok () ∨ (∃ e, r = .error e ∧ e.is .clientConflict = true) → cfg.careful = true →
        Existed s.central.shared.writes key holder token →
        RetiredBy s'.central.shared.writes key holder token s'.log) →
      Robust (discipline F cfg) i (k r) Q t s') :
    Robust (discipline F cfg) i ((LeaseClient.release l key holder token budget).bind k) Q t s := by
  unfold LeaseClient.release
  refine robust_postRelease hcall hq fun id s₁ hok₁ hk₁ hposted => ?_
  refine robust_await fun ans s₂ hok₂ hk₂ hans herr => ?_
  cases ans with
  | error e =>
    refine hk _ s₂ hok₂ (hk₁.trans hk₂) fun hgone => ?_
    rcases hgone with heq | ⟨e', heq, he'⟩
    · cases heq
    · cases heq
      rw [herr e rfl] at he'
      cases he'
  | ok resp =>
    refine hk _ s₂ hok₂ (hk₁.trans hk₂) fun hgone hcareful hex => ?_
    obtain ⟨s', h₁, hok', hreply, h₂⟩ := hans resp rfl
    obtain ⟨t₀, h₀⟩ := hok₁.server
    obtain ⟨t₁, h₁'⟩ := hok'.server
    obtain ⟨ws₀, hws, hlen, hnot⟩ :=
      released_after h₁' hcareful rfl (hposted.reaches h₀ h₁.carries.central) hreply hgone
    -- what was in the log when the Release was sent is in `ws₀` too
    have hsuf : s.central.shared.writes <:+ ws₀ :=
      List.suffix_of_suffix_length_le (hk₁.carries.log.trans h₁.carries.log) hws hlen
    exact RetiredBy.mono ⟨ws₀, hws, hws.length_le, hex.mono hsuf, hnot⟩ h₂.carries.log
      h₂.carries.log.length_le

/-! ## Lease writes -/

section Notes

variable {n : Nat} {e : Event ClusterSig} {w : LeaseWrite}

omit [DecidableEq ι] in
theorem replaceLease_note {cur : BerthLease} : (c.note i e).replaceLease n cur l =
    ((c.replaceLease n cur l).1, (c.replaceLease n cur l).2.note i e) := by
  unfold Cluster.replaceLease
  split
  · rfl
  · split <;> rfl

omit [DecidableEq ι] in
theorem applyWrite_note : (c.note i e).applyWrite n w =
    ((c.applyWrite n w).1, (c.applyWrite n w).2.note i e) := by
  unfold Cluster.applyWrite
  have hsame : (c.note i e).lease? w.lease.key = c.lease? w.lease.key := rfl
  rw [hsame]
  split
  · rfl
  dsimp only
  split
  · rfl
  · rw [replaceLease_note]

omit [DecidableEq ι] in
theorem execWrite_note {ch : Choice} (h : execWrite ch n w c = some (r, c')) :
    execWrite ch n w (c.note i e) = some (r, c'.note i e) := by
  cases ch with
  | ok =>
    have h : c.applyWrite n w = (r, c') := Option.some.inj h
    rw [execWrite, applyWrite_note, h]
  | fail err =>
    cases h
    rfl
  | lost err =>
    cases h
    rw [execWrite, applyWrite_note]
  | late err =>
    cases h
    rfl
  | _ => cases h

theorem set_note (s : Site ι cfg) (j : ι) (c : Cluster) :
    (s.set j c).note j i e = (s.note j i e).set j (c.note i e) := by
  unfold Site.note Site.set
  simp only [Function.update_self, Function.update_idem]

end Notes

omit [DecidableEq ι] in
theorem Acts.change (hb : Becomes s s' t.cluster c') (hok : s'.Ok F)
    (he : Evolves (s.clusters t.cluster) c')
    (hrun : c'.running = (s.clusters t.cluster).running)
    (hj : c'.journal = (s.clusters t.cluster).journal)
    (hseal : ∀ k, t.what.lease? ≠ some k → ∀ rv ps, Sealed (s.clusters t.cluster) k rv ps →
      Sealed c' k rv ps)
    (htidy : Tidy (s.clusters t.cluster) c') : Acts F t s s' := by
  refine ⟨hok, hb.carries he, fun j k n hn => ?_, fun j => ?_, fun j k hk rv ps hs => ?_,
    hb.tidy htidy⟩
  all_goals by_cases hj' : j = t.cluster
  · rw [hj', hb.here, hrun] at hn
    rw [hj']
    exact hn
  · exact hb.others j hj' ▸ hn
  · rw [hj', hb.here, hj]
  · rw [hb.others j hj']
  · subst hj'
    rw [hb.here]
    exact hseal k (hk rfl) rv ps hs
  · rw [hb.others j hj']
    exact hs

omit [DecidableEq ι] in
/-- A lease write that was computed from a version, with any outcome. It
opens its lease only from an active state or in the lease's own pass. -/
theorem write_acts {ch : Choice} {w : LeaseWrite} (h : s.Ok F)
    (hx : execWrite ch s.log w (s.clusters t.cluster) = some (r, c'))
    (hb : Becomes s s' t.cluster c') (hw : WriteOk F t.cluster s w)
    (hv : v ∈ (s.clusters t.cluster).versions) (hkey : v.lease.key = w.lease.key)
    (hrv : v.lease.resourceVersion = w.lease.resourceVersion)
    (hopen : w.opens = true → v.lease.phase = .active ∨ t.what.lease? = some w.lease.key) :
    Acts F t s s' := by
  have hok := h.clusters t.cluster
  -- what was active before a seal is older than the seal
  have hlt : ∀ k, t.what.lease? ≠ some k → ∀ rv ps, Sealed (s.clusters t.cluster) k rv ps →
      w.opens = true → w.lease.key = k → w.lease.resourceVersion < rv := by
    intro k hk rv ps hs ho hwk
    rcases hopen ho with hact | hmine
    · by_contra hge
      rw [← hrv] at hge
      exact (hs.calm v hv (hkey.trans hwk) (Nat.le_of_not_lt hge)).1 hact
    · exact absurd (hmine.trans (congrArg some hwk)) hk
  have happly : c' = ((s.clusters t.cluster).applyWrite s.log w).2 → Acts F t s s' := by
    rintro rfl
    obtain ⟨hok', htidy⟩ := h.applyWrite hb hw
    exact Acts.change hb hok' (Evolves.applyWrite _ _ _) (applyWrite_running w)
      (applyWrite_journal w) (fun k hk rv ps hs => hs.applyWrite hok hw (hlt k hk rv ps hs)) htidy
  cases ch with
  | ok =>
    refine happly ?_
    rw [Option.some.inj hx]
  | lost e =>
    refine happly ?_
    cases hx
    rfl
  | fail e =>
    cases hx
    exact (unchanged_ok h hb).acts
  | late e =>
    cases hx
    have ha : Alike (s.clusters t.cluster)
        { s.clusters t.cluster with late := w :: (s.clusters t.cluster).late } :=
      ⟨rfl, rfl, rfl, List.Subset.refl _, rfl, rfl, Grows.refl _, List.suffix_refl _⟩
    refine Acts.change hb (h.alike hb ha (fun w' hw' => ?_) hok.fence
      ((h.ledgers _).of_eq ha.evolves rfl rfl rfl rfl)) ha.evolves rfl rfl
      (fun k hk rv ps hs => hs.of_eq rfl fun w' hw' => ?_) (Tidy.of_eq rfl)
    · rcases List.mem_cons.mp hw' with rfl | hw'
      · exact hw
      · exact hok.late w' hw'
    · rcases List.mem_cons.mp hw' with rfl | hw'
      · exact hlt k hk rv ps hs
      · exact hs.late w' hw'
  | _ => cases hx

omit [DecidableEq ι] in
/-- The answer to a write that went through is what is stored now. -/
theorem applyWrite_stored {w : LeaseWrite} {n : Nat} (hwf : Wf c) (hv : v ∈ c.versions)
    (hrv : v.lease.resourceVersion = w.lease.resourceVersion)
    (h : (c.applyWrite n w).1 = .ok l) (hfin : (w.over v.lease).finalizers ≠ []) :
    (∃ rv, l = (w.over v.lease).stamped rv) ∧ l ∈ (c.applyWrite n w).2.leases := by
  unfold Cluster.applyWrite at h ⊢
  split at h
  · cases h
  rename_i cur hcur
  dsimp only at h ⊢
  split at h
  · cases h
  rename_i hcas
  rw [if_neg hcas]
  obtain ⟨rfl, hmem⟩ := hwf.cas hcur hv ((not_not.mp hcas).trans hrv.symm)
  cases h
  unfold Cluster.replaceLease
  split
  · next hsame =>
    refine ⟨⟨v.lease.resourceVersion, ?_⟩, hmem⟩
    rw [hsame]
    rfl
  · split
    · next hgone => exact absurd hgone.2 hfin
    · exact ⟨⟨_, rfl⟩, mem_putLease.mpr (.inl rfl)⟩

omit [DecidableEq ι] in
theorem execWrite_stored {ch : Choice} {w : LeaseWrite} {n : Nat} (hwf : Wf c) (hv : v ∈ c.versions)
    (hrv : v.lease.resourceVersion = w.lease.resourceVersion)
    (h : execWrite ch n w c = some (r, c')) (hr : r = .ok l)
    (hfin : (w.over v.lease).finalizers ≠ []) :
    (∃ rv, l = (w.over v.lease).stamped rv) ∧ l ∈ c'.leases := by
  cases ch with
  | ok =>
    have h : c.applyWrite n w = (r, c') := Option.some.inj h
    have := applyWrite_stored (n := n) hwf hv hrv (by rw [h]; exact hr) hfin
    rwa [h] at this
  | fail e =>
    cases h
    cases hr
  | lost e =>
    cases h
    cases hr
  | late e =>
    cases h
    cases hr
  | _ => cases h

/-! ### The journal of a thread -/

/-- The thread's last events, oldest first. -/
def Logged (i : Nat) (t : Task ι) (evs : List (Event ClusterSig)) (s : Site ι cfg) : Prop :=
  evs.reverse <+: (s.clusters t.cluster).events i

omit [DecidableEq ι] in
theorem Logged.interf {evs : List (Event ClusterSig)} (h : Logged i t evs s)
    (hi : Interf F i t s s') : Logged i t evs s' := by
  unfold Logged
  rw [hi.events]
  exact h

omit [DecidableEq ι] in
theorem Logged.nil : Logged i t [] s := List.nil_prefix

omit [DecidableEq ι] in
theorem execWrite_journal {ch : Choice} {w : LeaseWrite} {n : Nat}
    (h : execWrite ch n w c = some (r, c')) : c'.journal = c.journal := by
  cases ch with
  | ok =>
    have h : c.applyWrite n w = (r, c') := Option.some.inj h
    have hj := applyWrite_journal (c := c) (n := n) w
    rw [h] at hj
    exact hj
  | fail e =>
    cases h
    rfl
  | lost e =>
    cases h
    exact applyWrite_journal w
  | late e =>
    cases h
    rfl
  | _ => cases h

omit [DecidableEq ι] in
theorem commit_journal {id : Nat} {p : Pending} {review : Review} {verdict : Verdict}
    (h : c.commit id p review verdict = some c') : c'.journal = c.journal := by
  unfold Cluster.commit at h
  split at h
  · cases h
  split at h
  · cases h
    rfl
  split at h
  · split at h
    · cases h
      rfl
    · unfold Cluster.commitObject at h
      repeat' split at h
      all_goals
        cases h
        try rfl
  · cases h
    unfold Cluster.commitBinding
    repeat' split
    all_goals rfl

/-- No effect changes the journal but by being noted. -/
theorem execLive_journal {ch : Choice} {r : o.Res} (hok : s.Ok F)
    (h : execLive F ch o t s = some (r, s')) :
    (s'.clusters t.cluster).journal = (s.clusters t.cluster).journal := by
  by_cases ho : o.gentle = true
  · exact (gentle_ok ho hok h).1.calm.journal t.cluster
  cases o with
  | updateStatus l =>
    obtain ⟨c', hx, rfl⟩ := execLive_local rfl h
    rw [(Becomes.set s t.cluster c').here]
    exact execWrite_journal hx
  | updateLease l =>
    obtain ⟨c', hx, rfl⟩ := execLive_local rfl h
    rw [(Becomes.set s t.cluster c').here, execWrite_journal hx]
    split
    · rfl
    · exact (fence_fields _ l).2.2.1
  | post l key endpoint =>
    cases h
    show ((s.set t.cluster _).clusters t.cluster).journal = _
    rw [(Becomes.set s t.cluster _).here]
    split
    · exact (fence_fields _ l).2.2.1
    · rfl
  | commit id review verdict =>
    obtain ⟨c', hx, rfl⟩ := execLive_local rfl h
    rw [(Becomes.set s t.cluster c').here]
    simp only [execLocal] at hx
    split at hx
    · cases hx
    obtain ⟨p, _, hx⟩ := Option.bind_eq_some_iff.mp hx
    obtain ⟨c'', hcommit, heq⟩ := Option.map_eq_some_iff.mp hx
    cases heq
    exact commit_journal hcommit
  | _ => exact absurd rfl ho

/-- A program logs its own run. -/
theorem robust_logged {p : Prog ClusterSig α} {evs₀ : List (Event ClusterSig)}
    (hlog : Logged i t evs₀ s) (h : Robust (discipline F cfg) i p Q t s) :
    Robust (discipline F cfg) i p
      (fun a t' s' => Q a t' s' ∧ ∃ evs, p.Ran evs a ∧ Logged i t (evs₀ ++ evs) s') t s := by
  refine (Robust.traced (J := fun s : Site ι cfg => (s.clusters t.cluster).events i) ?_ ?_ h).mono ?_
  · exact fun hi => hi.events _
  · intro ch o s₁ r t' s₂ hok hex
    obtain ⟨rfl, _, s₁', hlive, rfl⟩ := exec_cases hex
    refine ⟨rfl, ?_⟩
    show ((s₁'.note t'.cluster i ⟨o, r⟩).clusters t'.cluster).events i = _
    rw [(note_becomes s₁' t'.cluster i _).here, events_note]
    unfold Cluster.events
    rw [execLive_journal hok hlive]
  · rintro a t' s' _ ⟨hq, evs, hran, hevs⟩
    refine ⟨hq, evs, hran, ?_⟩
    unfold Logged
    rw [hevs, List.reverse_append]
    exact (List.prefix_append_right_inj _).mpr hlog

/-- What a write that drops the responsibility for `v` has to show. -/
def Accounted (i : Nat) (t : Task ι) (v : Version) (s : Site ι cfg) (o : ClusterOp) : Prop :=
  ∃ g cs evs, Cleanup (v.lease.reporting g cs) evs ∧
    (o = .updateStatus (Reconciler.cleared (v.lease.reporting g cs)) ∨
      o = .updateLease (v.lease.reporting g cs).unfinalized) ∧ Logged i t evs s

theorem Accounted.cleaned {r : o.Res} (h : Accounted i t v s o) (hi : Interf F i t s s') :
    Cleaned ((s'.note t.cluster i ⟨o, r⟩).clusters t.cluster) v.lease := by
  obtain ⟨g, cs, evs, hclean, ho, hlog⟩ := h
  refine ⟨i, g, cs, evs, ⟨o, r⟩, hclean, ho, ?_⟩
  rw [(note_becomes s' t.cluster i _).here, events_note]
  obtain ⟨rest, hrest⟩ := hlog.interf hi
  exact ⟨[], rest, by rw [← hrest]; rfl⟩

/-! ### Writes of the status -/

theorem robust_updateStatus {k : Except ApiErr BerthLease → Prog ClusterSig α}
    (hv : v ∈ (s.clusters t.cluster).versions) (hkey : v.lease.key = l.key)
    (hrv : v.lease.resourceVersion = l.resourceVersion)
    (hmove : Move F t.cluster s v l.status)
    (hopen : l.phase = .active → v.lease.phase = .active ∨ t.what.lease? = some l.key)
    (hclean : Drops v.lease (v.lease.withStatus l.status) →
      Accounted i t v s (.updateStatus l))
    (hk : ∀ r s', s'.Ok F → Carries s s' → (∀ l', r = .ok l' → v.lease.finalizers ≠ [] →
      ∃ rv n, l' = (v.lease.withStatus l.status).stamped rv ∧ n ≤ s'.log ∧
        Read F i t ⟨l', n⟩ s') →
      Robust (discipline F cfg) i (k r) Q t s') :
    Robust (discipline F cfg) i ((updateStatus l).bind k) Q t s := by
  refine robust_effect (o := .updateStatus l) fun ch r s₁ s₂ hi hok hown hlive => ?_
  obtain ⟨c', hx, rfl⟩ := execLive_local rfl hlive
  -- the entry stands before its effect, which it does not change
  rw [set_note]
  have hnoted := note_becomes s₁ t.cluster i ⟨.updateStatus l, r⟩
  have hc := hi.carries.trans (hnoted.carries (alike_note _ _ _).evolves)
  have hokn : (s₁.note t.cluster i ⟨.updateStatus l, r⟩).Ok F := note_ok hok (Entry.plain rfl)
  have hvn := (hc.clusters t.cluster).versions.subset hv
  have hxn : execWrite ch (s₁.note t.cluster i ⟨.updateStatus l, r⟩).log (.status l)
      ((s₁.note t.cluster i ⟨.updateStatus l, r⟩).clusters t.cluster) =
      some (r, c'.note i ⟨.updateStatus l, r⟩) := by
    rw [hnoted.here]
    exact execWrite_note hx
  have hb := Becomes.set (s₁.note t.cluster i ⟨.updateStatus l, r⟩) t.cluster
    (c'.note i ⟨.updateStatus l, r⟩)
  have hacts := write_acts (t := t) hokn hxn hb
    ⟨v, hvn, hkey, hrv, fun hd => (hclean hd).cleaned hi, hmove.carries hc⟩ hvn hkey hrv
    fun ho => hopen (eq_of_beq ho)
  have hg := hacts.foretold hown
  refine ⟨hg, hk r _ hg.2 (hi.carries.trans hg.1.carries) fun l' hl' hfin => ?_⟩
  obtain ⟨⟨rv, heq⟩, hmem⟩ := execWrite_stored (w := .status l) (hokn.clusters _).wf hvn hrv hxn hl'
    hfin
  obtain ⟨n, hn, hread⟩ := Read.of_current (i := i) (t := t) hg.2 (by rw [hb.here]; exact hmem)
  exact ⟨rv, n, heq, hn, hread⟩

/-! ### Writes of the finalizers -/

theorem robust_updateLease {k : Except ApiErr BerthLease → Prog ClusterSig α}
    (hv : v ∈ (s.clusters t.cluster).versions) (hkey : v.lease.key = l.key)
    (hrv : v.lease.resourceVersion = l.resourceVersion) (hspec : l.spec = v.lease.spec)
    (hfin : finalizerName ∈ l.finalizers ∨
      (∀ w, v.lease.status.workload = some w → Settled t.cluster s v.lease w) ∧
      (l.spec.target.isSome = true → v.lease.uid = l.uid ∧ Drained F i t v s) ∧
      (v.lease.phase ≠ .idle → Accounted i t v s (.updateLease l)))
    (hk : ∀ r s', s'.Ok F → Carries s s' → Robust (discipline F cfg) i (k r) Q t s') :
    Robust (discipline F cfg) i ((updateLease l).bind k) Q t s := by
  refine robust_effect (o := .updateLease l) fun ch r s₁ s₂ hi hok hown hlive => ?_
  obtain ⟨c', hx, rfl⟩ := execLive_local rfl hlive
  rw [set_note]
  have hnoted := note_becomes s₁ t.cluster i ⟨.updateLease l, r⟩
  have hc := hi.carries.trans (hnoted.carries (alike_note _ _ _).evolves)
  have hokn : (s₁.note t.cluster i ⟨.updateLease l, r⟩).Ok F := note_ok hok (Entry.plain rfl)
  have hkn : Keeps F i t s (s₁.note t.cluster i ⟨.updateLease l, r⟩) :=
    hi.toKeeps.trans (Calm.refl s₁).noted
  have hownn : F.serial = true → ∀ k, t.what.lease? = some k →
      ((s₁.note t.cluster i ⟨.updateLease l, r⟩).clusters t.cluster).running k = some i := by
    rw [(note_fields s₁ t.cluster t.cluster i _).1]
    exact hown
  -- a write that takes the finalizer off is marked first
  obtain ⟨cf, hcf, hx⟩ : ∃ cf,
      StepOk F (s₁.note t.cluster i ⟨.updateLease l, r⟩)
        ((s₁.note t.cluster i ⟨.updateLease l, r⟩).set t.cluster cf) ∧
      cf.leases = ((s₁.note t.cluster i ⟨.updateLease l, r⟩).clusters t.cluster).leases ∧
      execWrite ch s₁.log (.whole l) cf = some (r, c'.note i ⟨.updateLease l, r⟩) := by
    rw [hnoted.here]
    simp only [execLocal] at hx
    split at hx
    · exact ⟨_, unchanged_ok hokn (by rw [← hnoted.here]; exact Becomes.set _ _ _), rfl,
        execWrite_note hx⟩
    rename_i hout
    refine ⟨((s₁.clusters t.cluster).note i ⟨.updateLease l, r⟩).fence l, ?_,
      (fence_fields _ l).1.leases, ?_⟩
    · refine fence_ok (v := v) hokn (by rw [← hnoted.here]; exact Becomes.set _ _ _) hownn
        fun htarget => ?_
      obtain ⟨_, hdrained, _⟩ := hfin.resolve_left hout
      exact ⟨(hdrained htarget).1, (hdrained htarget).2.keeps hkn⟩
    · rw [← fence_note]
      exact execWrite_note hx
  obtain ⟨hleases, hx⟩ := hx
  have hbf := Becomes.set (s₁.note t.cluster i ⟨.updateLease l, r⟩) t.cluster cf
  have hcs := hc.trans hcf.calm.carries
  have hvf := (hcs.clusters t.cluster).versions.subset hv
  have hb : Becomes ((s₁.note t.cluster i ⟨.updateLease l, r⟩).set t.cluster cf)
      ((s₁.note t.cluster i ⟨.updateLease l, r⟩).set t.cluster (c'.note i ⟨.updateLease l, r⟩))
      t.cluster (c'.note i ⟨.updateLease l, r⟩) :=
    ⟨rfl, (Becomes.set _ _ _).here, fun k hk => ((Becomes.set _ _ _).others k hk).trans
      (hbf.others k hk).symm⟩
  have hw : WriteOk F t.cluster ((s₁.note t.cluster i ⟨.updateLease l, r⟩).set t.cluster cf)
      (.whole l) := by
    refine ⟨v, hvf, hkey, hrv, ?_, hspec, hfin.imp id fun h w hw => (h.1 w hw).carries hcs⟩
    rintro ⟨hne, hidle | ⟨_, hout⟩⟩
    · exact absurd hidle hne
    · obtain ⟨_, _, hacc⟩ := hfin.resolve_left hout
      exact ((hacc hne).cleaned hi).evolves (hcf.calm.carries.clusters _)
  have hacts := write_acts (t := t) hcf.ok (by rw [hbf.here]; exact hx) hb hw hvf hkey hrv
    fun ho => by cases ho
  have hg := (Acts.after hcf hacts fun k => by
    by_cases hk : k = t.cluster
    · rw [hk, hbf.here, hleases]
    · rw [hbf.others k hk]).foretold hown
  exact ⟨hg, hk r _ hg.2 (hi.carries.trans hg.1.carries)⟩

end Berth.Operator
