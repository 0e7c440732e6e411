/-
Berth.Operator.ActiveTheorems — at most one cluster is active.

An active lease has a deadline that a central write once granted. If no
later write of that tenure brings the expiry back and no Release of it has
been sent, the tenure is the stored one until the deadline
(`History.kept_until`), and two clusters cannot both be its holder. No
Release has been sent because Releases come from a stop, and after a stop
under a token its lease is never active under it again (`TenureOk`).

An edit of `ttlSeconds` is what brings the expiry back: the next Acquire
stores the shorter expiry, and if its answer is lost, the longer deadline
stays in the status.
-/
import Berth.Operator.PodTheorems

namespace Berth.Operator

open Berth.Interleave Berth.Lease Berth.Api Berth.Client

variable {ι : Type} {cfg : Server.Config} {F : Fleet ι} {j : ι}
variable {s : Site ι cfg} {c : Cluster} {l m : BerthLease}

theorem Site.Ok.world (h : s.Ok F) : Server.World.Ok cfg s.central.shared := by
  obtain ⟨t₀, h₀⟩ := h.server
  exact Server.world_ok h₀

/-- What makes a lease active. -/
theorem activeAt_iff {τ : Time} : activeAt l τ = true ↔ l.deletionTimestamp = none ∧
    ∃ w d, l.status.workload = some w ∧ w.phase = .active ∧ w.deadline = some d ∧ τ < d ∧
      0 < w.token := by
  unfold activeAt
  cases hw : l.status.workload with
  | none => simp
  | some w => cases hd : w.deadline <;> simp [hd, and_assoc]

/-- No Release of an active tenure has been sent. -/
theorem not_released (h : s.Ok F) (hcareful : cfg.careful = true) (C : Contention F)
    (hl : l ∈ (s.clusters j).leases) (hkey : l.central = C.key) (hact : l.phase = .active)
    {x : Write Server.Call} (hx : x ∈ s.central.shared.writes) :
    ¬ x.Releases C.key (C.holder j) l.token := by
  intro hrel
  have hten := h.tenures hcareful C j
  have hwf := (h.clusters j).wf
  obtain ⟨t₀, h₀⟩ := h.server
  have hop := (h.world.called x hx).1
  rw [hrel.1] at hop
  obtain ⟨v, hv, hvkey, hstop⟩ := h.calls hcareful C x.call (Server.write_call h₀ hx) j _ hop.symm
  obtain ⟨n, hn⟩ := hwf.current l hl
  have hbefore := hten.before _ hn v hv hkey hvkey hact hstop
  -- but the stored lease is the newest of its name
  have hsame : v.lease.key = l.key :=
    (hten.only v hv hvkey).1.trans (hten.only _ hn hkey).1.symm
  have hnewest := hwf.newest l hl v hv hsame
  have hbefore : l.resourceVersion < v.lease.resourceVersion := hbefore
  omega

/-- While a contender is active, the lease is stored as its own. -/
theorem active_stored (h : s.Ok F) (hcareful : cfg.careful = true) (hclock : cfg.clock = .single)
    (C : Contention F) (hl : l ∈ (s.clusters j).leases) (hkey : l.central = C.key)
    (hact : activeAt l s.clock = true) :
    l.holder = C.holder j ∧ ∃ r, s.central.shared.store.lookup C.key = some r ∧
      HeldBy l.holder l.token (some r) ∧ s.clock < r.expiresAt := by
  obtain ⟨_, w, d, hw, hphase, hd, hnow, _⟩ := activeAt_iff.mp hact
  obtain ⟨n, hn⟩ := (h.clusters j).wf.current l hl
  obtain ⟨_, _, hholder, hgrant⟩ := (((h.clusters j).version _ hn).record w hw).active hphase
  have hmine : l.holder = C.holder j := by
    rw [holder_some hw, hholder]
    exact ((h.tenures hcareful C j).only _ hn hkey).2.1
  refine ⟨hmine, ?_⟩
  rw [← holder_some hw, ← token_some hw] at hgrant
  obtain ⟨hne, x, post, hx, _, hxk, hxheld, hxd⟩ := hgrant
  have hxk : x.new.key = C.key := hxk.trans hkey
  have hworld := h.world
  obtain ⟨r, hr, hrheld, hrd⟩ := hworld.history.kept_until (hworld.timely hclock) hworld.landed
    hnow hne (hx.subset List.mem_cons_self) hxk hxheld (hxd d hd) (fun y hy => by
      rw [hmine]
      exact not_released h hcareful C hl hkey ((phase_some hw).trans hphase) hy)
    fun y hy r _ hold hcont hr => Int.le_trans hr (hworld.lasting hcareful y hy r hold _ _ hcont)
  refine ⟨r, ?_, hrheld, Int.lt_of_lt_of_le hnow hrd⟩
  rw [hworld.replay]
  exact hr

variable [DecidableEq ι]

/-- At most one cluster is active. In every run in which no central write
takes back the expiry of a tenure it continues and no Release gives way to
a write of the tenure it was to end: while a contender's lease is active,
the central record is held under what the lease recorded and has not
expired, and no two contenders' leases are active at one instant. -/
theorem at_most_one_active (hcareful : cfg.careful = true) (hclock : cfg.clock = .single)
    (C : Contention F) {τ : Time} {p : Pool (machine F cfg)} (h : (fresh F cfg τ).Reaches p) :
    (∀ j, ∀ l ∈ (p.shared.clusters j).leases, l.central = C.key →
      activeAt l p.shared.clock = true →
      ∃ r, p.shared.central.shared.store.lookup C.key = some r ∧
        HeldBy l.holder l.token (some r) ∧ p.shared.clock < r.expiresAt) ∧
    ∀ i j, ∀ l ∈ (p.shared.clusters i).leases, ∀ m ∈ (p.shared.clusters j).leases,
      l.central = C.key → m.central = C.key → activeAt l p.shared.clock = true →
      activeAt m p.shared.clock = true → i = j ∧ l = m := by
  have hok := site_ok h
  refine ⟨fun j l hl hkey hact => (active_stored hok hcareful hclock C hl hkey hact).2, ?_⟩
  intro i j l hl m hm hlk hmk hla hma
  obtain ⟨hlh, r, hr, hlr, _⟩ := active_stored hok hcareful hclock C hl hlk hla
  obtain ⟨hmh, r', hr', hmr, _⟩ := active_stored hok hcareful hclock C hm hmk hma
  rw [hr, Option.some.injEq] at hr'
  subst hr'
  have hij : i = j := C.holder_inj i j (by rw [← hlh, ← hmh, ← hlr.1, ← hmr.1])
  subst hij
  have hwf := (hok.clusters i).wf
  obtain ⟨n, hn⟩ := hwf.current l hl
  obtain ⟨n', hn'⟩ := hwf.current m hm
  have hten := hok.tenures hcareful C i
  exact ⟨rfl, hwf.lease_key l hl m hm ((hten.only _ hn hlk).1.trans (hten.only _ hn' hmk).1.symm)⟩

/-! ## Two clusters -/

/-- Two clusters with an operator each, whose users create `nightly`. -/
def pair : Fleet Bool where
  config := fun b =>
    { clusterIdentity := if b then "west" else "east", operatorUser := "operator" }
  identity := fun _ => none
  serial := true
  honest := true
  mayCreate := fun _ l => decide (l.key = nightly.key ∧ l.spec.target.isSome = true)
  mayCall := fun _ => false

def rivals : Contention pair where
  key := nightly.central
  holder := fun b => if b then "west" else "east"
  object := fun _ => nightly.key
  holder_inj := by decide
  leases := fun j l hmay _ => by
    obtain ⟨hkey, htarget⟩ := of_decide_eq_true hmay
    refine ⟨hkey, ?_, htarget⟩
    cases j <;> rfl
  calls := fun _ hmay => (nomatch hmay)

/-- With a TTL of so many seconds. -/
def withTTL (n : Int) : BerthLease := { nightly with spec := { nightly.spec with ttlSeconds := n } }

/-- The eastern cluster holds the lease. -/
def eastRun (careful : Bool) (n : Int) : Script pair ⟨.single, none, careful⟩ :=
  prepare false (withTTL n) web 0 0 ++ activate false (withTTL n) 2 0 1 0

def eastActive : Pool (machine pair ⟨.single, none, true⟩) :=
  (fresh pair ⟨.single, none, true⟩ 0).played prompt (eastRun true 10) (by decide)

theorem at_most_one_active_east :
    (∃ l ∈ (eastActive.shared.clusters false).leases, activeAt l eastActive.shared.clock = true) ∧
    ∀ l ∈ (eastActive.shared.clusters false).leases, l.central = rivals.key →
      activeAt l eastActive.shared.clock = true →
      ∃ r, eastActive.shared.central.shared.store.lookup rivals.key = some r ∧
        HeldBy l.holder l.token (some r) ∧ eastActive.shared.clock < r.expiresAt :=
  ⟨by decide, (at_most_one_active rfl rfl rivals (Pool.reaches_played _)).1 false⟩

/-- The eastern cluster holds the lease for 100 seconds; `ttlSeconds` is
set to 10, the next Acquire is processed after a second, and its answer is
lost. After 12 seconds the western cluster acquires. -/
def shortenedRun : Script pair plain :=
  eastRun false 100 ++
    [happen false (.editLease nightly.key (withTTL 10).spec), .act (.env (.tick second)),
     pass false nightly, .go 4 6] ++ serving 1 second ++
    [.act (.env (.tick (12 * second)))] ++ prepare true nightly web 5 0 ++
    activate true nightly 7 2 1 (12 * second)

def shortened : Pool (machine pair plain) :=
  (fresh pair plain 0).played prompt shortenedRun (by decide)

/-- Then both are active. -/
theorem both_active_after_shortening :
    ∃ p, (fresh pair plain 0).Reaches p ∧
      (∃ l ∈ (p.shared.clusters false).leases, l.central = rivals.key ∧
        activeAt l p.shared.clock = true) ∧
      ∃ m ∈ (p.shared.clusters true).leases, m.central = rivals.key ∧
        activeAt m p.shared.clock = true :=
  ⟨shortened, Pool.reaches_played _, by decide, by decide⟩

end Berth.Operator
