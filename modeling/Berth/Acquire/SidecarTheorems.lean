/-
Berth.Acquire.SidecarTheorems — at most one sidecar is open.

From the invariant of `FleetTheorems` at one instant: an open sidecar's
deadline is backed by a write of the log, every write for its holder has
its TTL, and no Release for it has been sent, so its tenure is the stored
one until the deadline (`History.kept_until`). Two sidecars cannot both be
the stored holder.

`shutdown` sends the Release while the sidecar still counts as holding:
between the Release taking effect and the sidecar's exit another sidecar
may open. That is the one exception.
-/
import Berth.Acquire.RenewerTheorems

namespace Berth.Acquire

open Berth.Interleave Berth.Lease Berth.Api Berth.Client

variable {ι : Type} {F : Fleet ι} {cfg : Server.Config} {s : Site ι cfg} {j : ι}

/-! ## The log -/

theorem Site.Ok.world (hs : s.Ok F) : Server.World.Ok cfg s.server.shared := by
  obtain ⟨t₀, h⟩ := hs.server
  exact Server.world_ok h

/-- What a write of the log asked for. -/
theorem Site.Ok.obeys (hs : s.Ok F) {x : Write Server.Call} (hx : x ∈ s.server.shared.writes)
    {op : LeaseOp} (hop : x.op = some op) (hk : op.key? = some F.key)
    (hh : op.holder? = some (F.holder j)) :
    op.ttl? = some (F.ttl j) ∨ op.ttl? = none ∧ (s.pods j).releasing = true := by
  obtain ⟨t₀, h⟩ := hs.server
  have hcall := (hs.world.called x hx).1
  rw [hop] at hcall
  exact hs.requests x.call (Server.write_call h hx) op hcall.symm hk j hh

/-- Every write for a Pod's holder stores the Pod's TTL. -/
theorem Site.Ok.ttl_eq (hs : s.Ok F) {x : Write Server.Call} (hx : x ∈ s.server.shared.writes)
    (hk : x.new.key = F.key) (hh : x.new.holder = F.holder j) (hne : F.holder j ≠ "") :
    x.new.ttl = F.ttl j := by
  obtain ⟨ws₀, hws⟩ := suffix_of_mem hx
  obtain ⟨op, t, hop, _, htr⟩ := (hs.world.history.suffix hws).transition
  obtain ⟨hkey, hholder, httl⟩ := htr.held_fields (hh ▸ hne)
  rw [hk] at hkey
  rw [hh] at hholder
  rcases hs.obeys hx hop hkey hholder with h | ⟨h, _⟩
  · rw [httl, Option.some.injEq] at h
    exact h
  · rw [httl] at h
    cases h

/-- A Release for a Pod's holder in the log is the Pod's own. -/
theorem Site.Ok.releasing (hs : s.Ok F) {x : Write Server.Call} {tok : Int}
    (hx : x ∈ s.server.shared.writes) (hrel : x.Releases F.key (F.holder j) tok) :
    (s.pods j).releasing = true := by
  rcases hs.obeys hx hrel.1 rfl rfl with h | ⟨_, h⟩
  · cases h
  · exact h

/-- Later writes for one Pod never store an earlier expiry. -/
theorem Site.Ok.expiresAt_le (hs : s.Ok F) (hclock : cfg.clock = .single)
    {x y : Write Server.Call} {ws : List (Write Server.Call)}
    (hws : (y :: ws) <:+ s.server.shared.writes) (hx : x ∈ ws)
    (hxk : x.new.key = F.key) (hyk : y.new.key = F.key)
    (hxh : x.new.holder = F.holder j) (hyh : y.new.holder = F.holder j) (hne : F.holder j ≠ "") :
    x.new.expiresAt ≤ y.new.expiresAt := by
  have hle := ((hs.world.timely hclock).suffix hws).renewedAt_le (hs.world.history.suffix hws) hx
    (hxk.trans hyk.symm)
  unfold Record.expiresAt
  rw [hs.ttl_eq (hws.subset (List.mem_cons_of_mem y hx)) hxk hxh hne,
    hs.ttl_eq (hws.subset List.mem_cons_self) hyk hyh hne]
  exact Int.add_le_add_right hle _

/-! ## Open sidecars -/

theorem isOpen_iff {rt : Runtime} {now : Time} :
    rt.isOpen now = true ↔ rt.held = true ∧ rt.expiresAt ≠ zeroTime ∧ now < rt.expiresAt := by
  simp [Runtime.isOpen, and_assoc]

/-- While a sidecar is open and has not begun to release, the lease is
stored as its own, to its local deadline at least. -/
theorem open_stored (hs : s.Ok F) (hclock : cfg.clock = .single)
    (hopen : (s.pods j).rt.isOpen s.clock = true) (hrel : (s.pods j).releasing = false) :
    ∃ r, storedAt s.server.shared.writes F.key = some r ∧
      HeldBy (F.holder j) (s.pods j).rt.token (some r) ∧
      (s.pods j).rt.expiresAt ≤ r.expiresAt := by
  obtain ⟨hheld, hz, hnow⟩ := isOpen_iff.mp hopen
  obtain ⟨x, hx, hxk, hxheld, hne, hD⟩ := hs.confirmed j hheld hz
  have hw := hs.world
  refine hw.history.kept_until (hw.timely hclock) hw.landed hnow hne hx hxk hxheld hD ?_ ?_
  · intro y hy hyrel
    have := hs.releasing hy hyrel
    rw [hrel] at this
    cases this
  · intro y hy r hyk hold hcont hr
    obtain ⟨ws₀, hws⟩ := suffix_of_mem hy
    have hstored := (hw.history.suffix hws).old_eq
    rw [hold, hyk] at hstored
    obtain ⟨v, hv, rfl, hvk⟩ := mem_of_storedAt hstored.symm
    have hvheld : HeldBy (F.holder j) (s.pods j).rt.token (some v.new) := hold ▸ hcont.1
    exact Int.le_trans hr
      (hs.expiresAt_le hclock hws hv hvk hyk hvheld.1 hcont.2.1 hne)

/-- Two sidecars cannot both be the stored holder. -/
theorem open_unique {i : ι} (hs : s.Ok F) (hclock : cfg.clock = .single)
    (hi : (s.pods i).rt.isOpen s.clock = true) (hj : (s.pods j).rt.isOpen s.clock = true)
    (hri : (s.pods i).releasing = false) (hrj : (s.pods j).releasing = false) : i = j := by
  obtain ⟨r, hr, hheld, _⟩ := open_stored hs hclock hi hri
  obtain ⟨r', hr', hheld', _⟩ := open_stored hs hclock hj hrj
  rw [hr, Option.some.injEq] at hr'
  subst hr'
  exact F.holder_inj i j (hheld.1.symm.trans hheld'.1)

/-! ## Runs -/

variable {t₀ : Time} {dirs : ι → StateDir}

theorem site_ok_new : (Site.new cfg t₀ dirs).Ok F where
  server := ⟨t₀, Relation.ReflTransGen.refl⟩
  requests := fun _ hcall => nomatch hcall
  confirmed := fun _ hheld => nomatch hheld

variable [DecidableEq ι] {p q : Pool (machine F cfg)}

theorem fleet_poolOk (hclock : cfg.clock = .single) (h : (fresh F cfg t₀ dirs).Reaches p) :
    PoolOk (discipline F cfg) (fun _ _ _ _ _ => True) p := by
  refine PoolOk.reaches ?_ (fun _ _ => trivial) (PoolOk.empty site_ok_new fun _ => trivial) h
    trivial
  intro n c s c' s' hs _ _ hst
  have hok : Site.Ok F s' := Site.Ok.enter hs hst
  obtain ⟨rfl, _⟩ := enter_cases hst
  exact robust_process hclock hok

/-- The invariant holds after every interleaving. -/
theorem fleet_ok (hclock : cfg.clock = .single) (h : (fresh F cfg t₀ dirs).Reaches p) :
    Site.Ok F p.shared := (fleet_poolOk hclock h).inv

/-- The request with which Pod `j` asks for the lease or for more time. -/
def leaseRequest (F : Fleet ι) (j : ι) : Option Int → HttpRequest
  | none => ⟨F.identity j, F.key, acquireEndpoint (F.holder j) (F.ttl j)⟩
  | some tok => ⟨F.identity j, F.key, renewEndpoint (F.holder j) tok (F.ttl j)⟩

/-- In every run: of the sidecars that have not begun their shutdown
Release at most one is open, and while one is, the stored record is its
own and lives at least to its local deadline. A positive answer's write
expires no earlier than any start of its request plus the TTL, a
confirmed deadline is no later than the expiry of a write for that holder
and token, and no later write for the holder brings the expiry below it. -/
theorem sidecars_exclude (hclock : cfg.clock = .single) (h : (fresh F cfg t₀ dirs).Reaches p) :
    (∀ i j, (p.shared.pods i).rt.isOpen p.shared.clock = true →
      (p.shared.pods j).rt.isOpen p.shared.clock = true →
      (p.shared.pods i).releasing = false → (p.shared.pods j).releasing = false → i = j) ∧
    (∀ j, (p.shared.pods j).rt.isOpen p.shared.clock = true →
      (p.shared.pods j).releasing = false →
      ∃ r, p.shared.server.shared.store.lookup F.key = some r ∧
        HeldBy (F.holder j) (p.shared.pods j).rt.token (some r) ∧
        (p.shared.pods j).rt.expiresAt ≤ r.expiresAt) ∧
    (∀ j tok id τ resp res, Sent p.shared.server id (leaseRequest F j tok) τ →
      reply? p.shared.server id = some resp → decode resp = .ok res → res.acquired = true →
      ∃ x ∈ p.shared.server.shared.writes, x.tid = id ∧ x.new.key = F.key ∧
        HeldBy (F.holder j) res.fencingToken (some x.new) ∧ τ + F.ttl j ≤ x.new.expiresAt) ∧
    (∀ j, (p.shared.pods j).rt.held = true → (p.shared.pods j).rt.expiresAt ≠ zeroTime →
      (∃ x ∈ p.shared.server.shared.writes, x.new.key = F.key ∧
        HeldBy (F.holder j) (p.shared.pods j).rt.token (some x.new) ∧
        (p.shared.pods j).rt.expiresAt ≤ x.new.expiresAt) ∧
      ∀ q z ws, p.Reaches q → (z :: ws) <:+ q.shared.server.shared.writes →
        p.shared.server.shared.writes <:+ ws → z.new.key = F.key → z.new.holder = F.holder j →
        (p.shared.pods j).rt.expiresAt ≤ z.new.expiresAt) := by
  have hs := fleet_ok hclock h
  refine ⟨fun i j => open_unique hs hclock, ?_, ?_, ?_⟩
  · intro j hj hrel
    rw [hs.world.replay]
    exact open_stored hs hclock hj hrel
  · intro j tok id τ resp res hsent hreply hdec hacq
    obtain ⟨t₁, hp⟩ := hs.server
    cases tok with
    | none =>
      obtain ⟨x, hx, htid, hg, _⟩ :=
        acquired_grants hclock hp (acquire_op F j) hsent hreply hdec hacq
      exact ⟨x, hx, htid, hg.key, ⟨hg.holder, hg.token⟩, hg.deadline_le⟩
    | some tok =>
      obtain ⟨htok, x, hx, htid, hg, _⟩ :=
        renewed_grants hclock hp (renew_op F j tok) hsent hreply hdec hacq
      exact ⟨x, hx, htid, hg.key, ⟨hg.holder, htok ▸ hg.token⟩, hg.deadline_le⟩
  · intro j hheld hz
    obtain ⟨x, hx, hxk, hxheld, hne, hD⟩ := hs.confirmed j hheld hz
    refine ⟨⟨x, hx, hxk, hxheld, hD⟩, fun q z ws hq hws hpast hzk hzh => ?_⟩
    exact Int.le_trans hD ((fleet_ok hclock (h.trans hq)).expiresAt_le hclock hws
      (hpast.subset hx) hxk hzk hxheld.1 hzh hne)

/-! ## Shutdown -/

/-- Two Pods, `a` and `b`, with a TTL of ten seconds. -/
def duo : Fleet Bool where
  key := ⟨"jobs", "nightly"⟩
  config := fun b =>
    { leaseName := "nightly", leaseNamespace := "jobs", ttl := 10 * second
      heartbeatInterval := 3 * second, releaseOnShutdown := some true
      holderIdentity := if b then "b" else "a" }
  identity := fun _ => none
  ttlSeconds := fun _ => 10
  config_key := fun _ => rfl
  config_ttl := fun _ => rfl
  ttl_pos := by decide
  ttl_max := by decide
  heartbeat_pos := by decide
  heartbeat_lt := by decide
  holder_inj := by decide

/-- Thread `i`, the sidecar of Pod `b`, starts unheld, and its first tick
acquires the lease as request `id`; then it opens the gate. -/
def acquireRun (b : Bool) (i id : Nat) : List (Action (machine duo ⟨.single, none, false⟩)) :=
  [.spawn ⟨b, .sidecar 3⟩] ++ List.replicate 5 (.exec i .ok) ++ [.exec i (.event .tick)] ++
    List.replicate 4 (.exec i .ok) ++
    [.env (.serve id .answer), .env (.serve id (.clock 0)), .env (.serve id .answer),
     .exec i .ok, .exec i (.flag false)] ++ List.replicate 11 (.exec i .ok)

/-- Thread `i` is told to stop and sends its Release as request `id`, which
the server completes; the answer is still on its way. -/
def releaseRun (i id : Nat) : List (Action (machine duo ⟨.single, none, false⟩)) :=
  [.exec i .ok, .exec i (.event .done), .exec i .ok,
   .env (.serve id .answer), .env (.serve id (.clock 0)), .env (.serve id .answer)]

def opened : Pool (machine duo ⟨.single, none, false⟩) :=
  (fresh duo ⟨.single, none, false⟩ 0 fun _ => {}).after (acquireRun false 0 0) (by decide)

def overlapping : Pool (machine duo ⟨.single, none, false⟩) :=
  (fresh duo ⟨.single, none, false⟩ 0 fun _ => {}).after
    (acquireRun false 0 0 ++ releaseRun 0 1 ++ acquireRun true 1 2) (by decide)

/-- A sidecar in its shutdown Release and its successor are both open. -/
theorem sidecars_overlap_in_shutdown :
    ∃ p, (fresh duo ⟨.single, none, false⟩ 0 fun _ => {}).Reaches p ∧
      (p.shared.pods false).rt.isOpen p.shared.clock = true ∧
      (p.shared.pods true).rt.isOpen p.shared.clock = true :=
  ⟨overlapping, Pool.reaches_after _, by decide, by decide⟩

theorem sidecars_exclude_opened :
    (opened.shared.pods false).rt.isOpen opened.shared.clock = true ∧
    (∀ j, (opened.shared.pods j).rt.isOpen opened.shared.clock = true →
      (opened.shared.pods j).releasing = false → false = j) ∧
    ∃ r, opened.shared.server.shared.store.lookup duo.key = some r ∧
      HeldBy (duo.holder false) (opened.shared.pods false).rt.token (some r) ∧
      (opened.shared.pods false).rt.expiresAt ≤ r.expiresAt := by
  have hreach : (fresh duo ⟨.single, none, false⟩ 0 fun _ => {}).Reaches opened := Pool.reaches_after _
  have hopen : (opened.shared.pods false).rt.isOpen opened.shared.clock = true := by decide
  have hrel : (opened.shared.pods false).releasing = false := by decide
  obtain ⟨hone, hstored, _⟩ := sidecars_exclude rfl hreach
  exact ⟨hopen, fun j hj hrj => hone false j hopen hj hrel hrj, hstored false hopen hrel⟩

end Berth.Acquire
