/-
Berth.Operator.Tenures — operators that contend for one central lease.

A tenure under which a lease was once stopping is never active again:
after the stop the lease is stopping under the same token until the
tenure is over, and no grant for a tenure comes after its end.
-/
import Berth.Operator.Records

namespace Berth.Operator

open Berth.Interleave Berth.Lease Berth.Api Berth.Client

variable {ι : Type} {cfg : Server.Config} {F : Fleet ι} {j : ι}
variable {s s' s'' : Site ι cfg} {c c' : Cluster} {l m cur : BerthLease} {v : Version}

/-! ## Contention -/

/-- The operators contend for one central lease: each of them has at most
one BerthLease for it, which has a target, each has its own holder, and
nobody else acts for these holders. -/
structure Contention (F : Fleet ι) where
  key : Key
  holder : ι → String
  object : ι → Key
  holder_inj : ∀ i j, holder i = holder j → i = j
  leases : ∀ j l, F.mayCreate j l = true → l.central = key → l.key = object j ∧
    (F.config j).holderFor l = holder j ∧ l.spec.target.isSome = true
  calls : ∀ c, F.mayCall c = true → ∀ op, c.op = some op → op.key? = some key →
    ∀ j, op.holder? ≠ some (holder j)

/-- Stopping, after an activation under this token. -/
def StoppedUnder (l : BerthLease) (t : Int) : Prop := l.phase = .stopping ∧ l.token = t ∧ t ≠ 0

/-- The versions of cluster `j`'s lease. -/
structure TenureOk (C : Contention F) (j : ι) (s : Site ι cfg) : Prop where
  only : ∀ v ∈ (s.clusters j).versions, v.lease.central = C.key →
    v.lease.key = C.object j ∧ (F.config j).holderFor v.lease = C.holder j ∧
      v.lease.spec.target.isSome = true
  /-- after a stop under `t` the lease is still stopping or `t` is over -/
  after : ∀ v ∈ (s.clusters j).versions, ∀ u ∈ (s.clusters j).versions,
    v.lease.central = C.key → u.lease.central = C.key → ∀ t, StoppedUnder v.lease t →
    v.lease.resourceVersion < u.lease.resourceVersion →
    StoppedUnder u.lease t ∨
      RetiredBy s.central.shared.writes C.key (C.holder j) t u.born
  /-- no activation under `t` comes after a stop under `t` -/
  before : ∀ v ∈ (s.clusters j).versions, ∀ u ∈ (s.clusters j).versions,
    v.lease.central = C.key → u.lease.central = C.key → v.lease.phase = .active →
    StoppedUnder u.lease v.lease.token → v.lease.resourceVersion < u.lease.resourceVersion
  /-- a stop under `t` whose lease is gone is over -/
  gone : ∀ v ∈ (s.clusters j).versions, v.lease.central = C.key → ∀ t, StoppedUnder v.lease t →
    (∀ l ∈ (s.clusters j).leases, l.central = C.key → ¬ StoppedUnder l t) →
    RetiredBy s.central.shared.writes C.key (C.holder j) t s.log

/-- Every release for one of the holders comes from a stop under its token. -/
def CallsOk (C : Contention F) (s : Site ι cfg) : Prop :=
  ∀ call ∈ s.central.calls, ∀ j t, call.op = some (.release C.key (C.holder j) t) →
    ∃ v ∈ (s.clusters j).versions, v.lease.central = C.key ∧ StoppedUnder v.lease t

/-! ## Tenures -/

section Tenures

variable {C : Contention F} {t : Int}

/-- A change that touches neither leases nor versions. -/
theorem TenureOk.of_eq (h : TenureOk C j s) (hc : Carries s s')
    (hv : (s'.clusters j).versions = (s.clusters j).versions)
    (hl : (s'.clusters j).leases = (s.clusters j).leases) : TenureOk C j s' where
  only := by rw [hv]; exact h.only
  after := by
    rw [hv]
    intro v hv' u hu hvc huc t hstop hlt
    exact (h.after v hv' u hu hvc huc t hstop hlt).imp id
      fun hr => hr.mono hc.log (Nat.le_refl _)
  before := by rw [hv]; exact h.before
  gone := by
    rw [hv, hl]
    intro v hv' hvc t hstop hno
    exact (h.gone v hv' hvc t hstop hno).mono hc.log hc.log.length_le

/-- The holder of a stopped record. -/
theorem TenureOk.holder (h : TenureOk C j s) (hok : ClusterOk F j s)
    (hv : v ∈ (s.clusters j).versions) (hc : v.lease.central = C.key)
    (hstop : StoppedUnder v.lease t) : v.lease.holder = C.holder j := by
  obtain ⟨hphase, htok, hne⟩ := hstop
  obtain ⟨w, hw⟩ := workload_of_phase (by rw [hphase]; exact (nomatch ·))
  rw [phase_some hw] at hphase
  rw [token_some hw] at htok
  rw [holder_some hw, (((hok.version v hv).record w hw).stopping hphase (htok ▸ hne)).2.1]
  exact (h.only v hv hc).2.1

/-- Versions of contending leases come in one sequence that ends in the
stored one. -/
theorem TenureOk.rv_le (h : TenureOk C j s) (hok : ClusterOk F j s) {u : Version}
    (hu : u ∈ (s.clusters j).versions) (huc : u.lease.central = C.key)
    (hv : v ∈ (s.clusters j).versions) (hcur : v.lease ∈ (s.clusters j).leases)
    (hvc : v.lease.central = C.key) : u.lease.resourceVersion ≤ v.lease.resourceVersion :=
  hok.wf.newest v.lease hcur u hu ((h.only u hu huc).1.trans (h.only v hv hvc).1.symm)

/-- After a stop under `t` the stored lease is stopping, or `t` was over
when it was stored. -/
theorem TenureOk.last (h : TenureOk C j s) (hok : ClusterOk F j s) {u : Version}
    (hu : u ∈ (s.clusters j).versions) (huc : u.lease.central = C.key)
    (hstop : StoppedUnder u.lease t) (hv : v ∈ (s.clusters j).versions)
    (hcur : v.lease ∈ (s.clusters j).leases) (hvc : v.lease.central = C.key) :
    StoppedUnder v.lease t ∨
      RetiredBy s.central.shared.writes C.key (C.holder j) t v.born := by
  rcases Nat.lt_or_eq_of_le (h.rv_le hok hu huc hv hcur hvc) with hlt | heq
  · exact h.after u hu v hv huc hvc t hstop hlt
  · rw [hok.wf.eq_of_rv hu hv heq] at hstop
    exact .inl hstop

/-- A change away from a stop under `t` comes when `t` is over. -/
theorem TenureOk.leave (h : TenureOk C j s) (hok : ClusterOk F j s)
    (hcareful : cfg.careful = true) (hv : v ∈ (s.clusters j).versions)
    (hvc : v.lease.central = C.key) (hf : Follows F j s v l) (hstop : StoppedUnder v.lease t) :
    StoppedUnder l t ∨ RetiredBy s.central.shared.writes C.key (C.holder j) t s.log := by
  have hh := h.holder hok hv hvc hstop
  obtain ⟨hphase, rfl, hne⟩ := hstop
  rcases hf.left hcareful hphase hne with ⟨hp, ht⟩ | hr
  · exact .inl ⟨hp, ht, hne⟩
  · rw [hvc, hh] at hr
    exact .inr hr

theorem TenureOk.follow (h : TenureOk C j s) (hok : ClusterOk F j s)
    (hh : History s.central.shared.writes) (hcareful : cfg.careful = true)
    (hb : Becomes s s' j ((s.clusters j).putLease s.log l))
    (hv : v ∈ (s.clusters j).versions) (hcur : v.lease ∈ (s.clusters j).leases)
    (hf : Follows F j s v l) : TenureOk C j s' := by
  have hvc : l.central = C.key → v.lease.central = C.key := fun hc => hf.same.central ▸ hc
  -- what a stop that came before means for the new version
  have hnew : ∀ u ∈ (s.clusters j).versions, u.lease.central = C.key → l.central = C.key →
      ∀ t, StoppedUnder u.lease t → StoppedUnder l t ∨
        RetiredBy s.central.shared.writes C.key (C.holder j) t s.log := by
    intro u hu huc hlc t hstop
    rcases h.last hok hu huc hstop hv hcur (hvc hlc) with hs | hr
    · exact h.leave hok hcareful hv (hvc hlc) hf hs
    · exact .inr (hr.mono (List.suffix_refl _) (hok.born v hv))
  refine ⟨?_, ?_, ?_, ?_⟩ <;> rw [hb.here]
  · intro u hu huc
    rcases List.mem_cons.mp hu with rfl | hu
    · obtain ⟨hkey, hholder, htarget⟩ := h.only v hv (hvc huc)
      exact ⟨hf.same.key.trans hkey, (hf.same.holderFor _).trans hholder,
        (congrArg Option.isSome hf.same.target).trans htarget⟩
    · exact h.only u hu huc
  · rw [hb.central]
    intro u hu u' hu' huc huc' t hstop hlt
    rcases List.mem_cons.mp hu with rfl | hu
    · rcases List.mem_cons.mp hu' with rfl | hu'
      · exact absurd hlt (Nat.lt_irrefl _)
      · exact absurd hlt (Nat.not_lt.mpr (Nat.le_succ_of_le (hok.wf.top u' hu')))
    · rcases List.mem_cons.mp hu' with rfl | hu'
      · exact hnew u hu huc huc' t hstop
      · exact h.after u hu u' hu' huc huc' t hstop hlt
  · intro u hu u' hu' huc huc' hact hstop
    rcases List.mem_cons.mp hu with rfl | hu
    · rcases List.mem_cons.mp hu' with rfl | hu'
      · have hact : l.phase = .active := hact
        have hstop : l.phase = .stopping := hstop.1
        rw [hact] at hstop
        cases hstop
      · obtain ⟨hns, hcase⟩ := hf.active hact
        rcases hcase with ⟨hact', htok⟩ | ⟨d, hgrant⟩
        · have hstop' : StoppedUnder u'.lease v.lease.token := htok ▸ hstop
          exact absurd (h.before v hv u' hu' (hvc huc) huc' hact' hstop')
            (Nat.not_lt.mpr (h.rv_le hok hu' huc' hv hcur (hvc huc)))
        · rcases h.last hok hu' huc' hstop hv hcur (hvc huc) with hs | hr
          · exact absurd hs.1 hns
          · -- the grant came after the tenure was over
            have hact : l.phase = .active := hact
            have hlc : l.central = C.key := huc
            obtain ⟨w, hw⟩ := workload_of_phase (by rw [hact]; exact (nomatch ·))
            have hholder : l.holder = C.holder j := by
              rw [phase_some hw] at hact
              rw [holder_some hw, ((hf.ok.record w hw).active hact).2.2.1, hf.same.holderFor]
              exact (h.only v hv (hvc hlc)).2.1
            rw [hlc, hholder] at hgrant
            exact absurd hgrant (hr.not_grant hh)
    · rcases List.mem_cons.mp hu' with rfl | hu'
      · exact Nat.lt_succ_of_le (hok.wf.top u hu)
      · exact h.before u hu u' hu' huc huc' hact hstop
  · rw [hb.log, hb.central]
    intro u hu huc t hstop hno
    rcases List.mem_cons.mp hu with rfl | hu
    · exact absurd hstop (hno _ (mem_putLease.mpr (.inl rfl)) huc)
    by_cases hlc : l.central = C.key
    · rcases hnew u hu huc hlc t hstop with hs | hr
      · exact (hno _ (mem_putLease.mpr (.inl rfl)) hlc hs).elim
      · exact hr
    · refine h.gone u hu huc t hstop fun m hm hmc => ?_
      refine hno m (mem_putLease.mpr (.inr ⟨hm, fun hkey => hlc ?_⟩)) hmc
      rw [hok.wf.lease_key m hm v.lease hcur (hkey.trans hf.same.key)] at hmc
      exact hf.same.central.trans hmc

/-- A new lease has no activation, and what its predecessors under that
name stopped is over. -/
theorem TenureOk.create (h : TenureOk C j s) (hok : ClusterOk F j s)
    (hb : Becomes s s' j ((s.clusters j).putLease s.log l))
    (honly : l.central = C.key → l.key = C.object j ∧ (F.config j).holderFor l = C.holder j ∧
      l.spec.target.isSome = true) (hidle : l.phase = .idle)
    (hfree : ∀ m ∈ (s.clusters j).leases, m.key ≠ l.key) : TenureOk C j s' := by
  have hnone : l.central = C.key → ∀ m ∈ (s.clusters j).leases, m.central ≠ C.key := by
    intro hlc m hm hmc
    obtain ⟨n, hn⟩ := hok.wf.current m hm
    exact hfree m hm ((h.only _ hn hmc).1.trans (honly hlc).1.symm)
  refine ⟨?_, ?_, ?_, ?_⟩ <;> rw [hb.here]
  · intro u hu huc
    rcases List.mem_cons.mp hu with rfl | hu
    · exact honly huc
    · exact h.only u hu huc
  · rw [hb.central]
    intro u hu u' hu' huc huc' t hstop hlt
    rcases List.mem_cons.mp hu with rfl | hu
    · have hphase : l.phase = .stopping := hstop.1
      rw [hidle] at hphase
      cases hphase
    · rcases List.mem_cons.mp hu' with rfl | hu'
      · exact .inr (h.gone u hu huc t hstop fun m hm hmc => absurd hmc (hnone huc' m hm))
      · exact h.after u hu u' hu' huc huc' t hstop hlt
  · intro u hu u' hu' huc huc' hact hstop
    rcases List.mem_cons.mp hu with rfl | hu
    · have hact : l.phase = .active := hact
      rw [hidle] at hact
      cases hact
    · rcases List.mem_cons.mp hu' with rfl | hu'
      · exact Nat.lt_succ_of_le (hok.wf.top u hu)
      · exact h.before u hu u' hu' huc huc' hact hstop
  · rw [hb.log, hb.central]
    intro u hu huc t hstop hno
    rcases List.mem_cons.mp hu with rfl | hu
    · exact absurd hstop (hno _ (mem_putLease.mpr (.inl rfl)) huc)
    · exact h.gone u hu huc t hstop fun m hm =>
        hno m (mem_putLease.mpr (.inr ⟨hm, hfree m hm⟩))

/-- A lease that is stopping may go when its tenure is over. -/
theorem TenureOk.dropLease {k : Key} (h : TenureOk C j s)
    (hb : Becomes s s' j ((s.clusters j).dropLease k))
    (hover : ∀ m ∈ (s.clusters j).leases, m.key = k → m.central = C.key → ∀ t,
      StoppedUnder m t → RetiredBy s.central.shared.writes C.key (C.holder j) t s.log) :
    TenureOk C j s' := by
  refine ⟨?_, ?_, ?_, ?_⟩ <;> rw [hb.here]
  · exact h.only
  · rw [hb.central]
    exact h.after
  · exact h.before
  · rw [hb.log, hb.central]
    intro u hu huc t hstop hno
    by_cases hex : ∃ m ∈ (s.clusters j).leases, m.central = C.key ∧ StoppedUnder m t
    · obtain ⟨m, hm, hmc, hms⟩ := hex
      refine hover m hm ?_ hmc t hms
      by_contra hkey
      exact hno m (mem_dropLease.mpr ⟨hm, hkey⟩) hmc hms
    · exact h.gone u hu huc t hstop fun m hm hmc hms => hex ⟨m, hm, hmc, hms⟩

end Tenures

theorem CallsOk.carries {C : Contention F} (h : CallsOk C s) (hc : Carries s s')
    (heq : s'.central.calls = s.central.calls) : CallsOk C s' := by
  intro call hcall j t hop
  rw [heq] at hcall
  obtain ⟨v, hv, hrest⟩ := h call hcall j t hop
  exact ⟨v, (hc.clusters j).versions.subset hv, hrest⟩

end Berth.Operator
