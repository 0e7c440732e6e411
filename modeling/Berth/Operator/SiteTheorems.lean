/-
Berth.Operator.SiteTheorems — the invariant of the operators' machine.

`Site.Ok` puts the parts together: the central server's pool is one of its
runs, the records and the ledger of every cluster are true, contending
tenures exclude each other, and every release for a contender comes from a
stop. One lemma per kind of change says that the whole invariant is kept.
-/
import Berth.Operator.Tenures
import Berth.Operator.Ledger

namespace Berth.Operator

open Berth.Interleave Berth.Lease Berth.Api Berth.Client

variable {ι : Type} {cfg : Server.Config} {F : Fleet ι} {j : ι}
variable {s s' s'' : Site ι cfg} {c c' : Cluster} {l m cur : BerthLease} {v : Version}

/-! ## Invariant -/

structure Site.Ok (F : Fleet ι) (s : Site ι cfg) : Prop where
  server : ∃ t₀, (Server.fresh cfg t₀).Reaches s.central
  clusters : ∀ j, ClusterOk F j s
  ledgers : ∀ j, Ledger F (s.clusters j)
  tenures : cfg.careful = true → ∀ (C : Contention F) (j : ι), TenureOk C j s
  calls : cfg.careful = true → ∀ C : Contention F, CallsOk C s

theorem Site.Ok.history (h : s.Ok F) : History s.central.shared.writes := by
  obtain ⟨t₀, h₀⟩ := h.server
  exact (Server.world_ok h₀).history

/-! ## Changes -/

/-- A change of one cluster. -/
theorem Site.Ok.change (h : s.Ok F) (hb : Becomes s s' j c') (he : Evolves (s.clusters j) c')
    (hj : ClusterOk F j s') (hl : Ledger F c')
    (ht : cfg.careful = true → ∀ C : Contention F, TenureOk C j s') : s'.Ok F := by
  have hc := hb.carries he
  refine ⟨?_, fun k => ?_, fun k => ?_, fun hcareful C k => ?_, fun hcareful C => ?_⟩
  · rw [hb.central]
    exact h.server
  · by_cases hk : k = j
    · rw [hk]
      exact hj
    · exact (h.clusters k).same hc (hb.others k hk)
  · by_cases hk : k = j
    · rw [hk, hb.here]
      exact hl
    · rw [hb.others k hk]
      exact h.ledgers k
  · by_cases hk : k = j
    · rw [hk]
      exact ht hcareful C
    · exact (h.tenures hcareful C k).of_eq hc (by rw [hb.others k hk]) (by rw [hb.others k hk])
  · exact (h.calls hcareful C).carries hc (by rw [hb.central])

/-- A change of the fields that no lease or object is in. -/
theorem Site.Ok.alike (h : s.Ok F) (hb : Becomes s s' j c') (ha : Alike (s.clusters j) c')
    (hlate : ∀ w ∈ c'.late, WriteOk F j s w)
    (hfence : F.serial = true → ∀ u ∈ c'.fenced, ∀ l ∈ (s.clusters j).leases, l.uid = u →
      Quiesced (s.clusters j) l) (hl : Ledger F c') : s'.Ok F :=
  h.change hb ha.evolves ((h.clusters j).alike hb ha hlate hfence) hl fun hcareful C =>
    (h.tenures hcareful C j).of_eq (hb.carries ha.evolves) (by rw [hb.here, ha.versions])
      (by rw [hb.here, ha.leases])

theorem Alike.refl (c : Cluster) : Alike c c :=
  ⟨rfl, rfl, rfl, List.Subset.refl _, rfl, rfl, Grows.refl _, List.suffix_refl _⟩

/-- Nothing changes. -/
theorem Site.Ok.unchanged (h : s.Ok F) (hb : Becomes s s' j (s.clusters j)) : s'.Ok F :=
  h.alike hb (Alike.refl _) (h.clusters j).late (h.clusters j).fence (h.ledgers j)

/-- A change of the stored state of a lease. -/
theorem Site.Ok.replaceLease (h : s.Ok F)
    (hb : Becomes s s' j ((s.clusters j).replaceLease s.log v.lease l).2)
    (hv : v ∈ (s.clusters j).versions) (hcur : v.lease ∈ (s.clusters j).leases)
    (hf : Follows F j s v l) : s'.Ok F := by
  have hok := h.clusters j
  unfold Cluster.replaceLease at hb
  split at hb
  · exact h.unchanged hb
  split at hb
  · next hgone =>
    -- without finalizers the record is settled
    have hset : ∀ w, l.status.workload = some w → Settled j s l w := by
      intro w hw
      refine (hf.ok.record w hw).settled ?_
      rw [hgone.2]
      exact List.not_mem_nil
    have hdead : ∀ x ∈ l.pods, Dead (s.clusters j) x.uid := by
      intro x hx
      cases hw : l.status.workload with
      | none =>
        rw [pods_none hw] at hx
        cases hx
      | some w =>
        rw [pods_some hw] at hx
        exact (hset w hw).dead x hx
    refine h.change hb (Evolves.dropLease _ _) (hok.dropLease hb fun m hm hkey x hx => ?_)
      ((h.ledgers j).of_eq (Evolves.dropLease _ _) rfl rfl rfl rfl) fun hcareful C =>
        (h.tenures hcareful C j).dropLease hb fun m hm hkey hmc t hstop => ?_
    · rw [hok.wf.lease_key m hm v.lease hcur (hkey.trans hf.same.key)] at hx
      exact (hf.kept x hx).elim (hdead x) id
    · rw [hok.wf.lease_key m hm v.lease hcur (hkey.trans hf.same.key)] at hmc hstop
      have hten := h.tenures hcareful C j
      rcases hten.leave hok hcareful hv hmc hf hstop with ⟨hp, htok, hne⟩ | hr
      · obtain ⟨w, hw⟩ := workload_of_phase (by rw [hp]; exact (nomatch ·))
        have hholder : w.holder = C.holder j := by
          rw [phase_some hw] at hp
          rw [token_some hw] at htok
          rw [((hf.ok.record w hw).stopping hp (htok ▸ hne)).2.1, hf.same.holderFor]
          exact (hten.only v hv hmc).2.1
        rw [token_some hw] at htok
        have hr := (hset w hw).retired hcareful (htok ▸ hne)
        rw [hf.same.central, hmc, hholder, htok] at hr
        exact hr
      · exact hr
  · next hkept =>
    refine h.change hb (Evolves.putLease _ _ _) (hok.follow hb hv hcur hf fun hd hfin =>
      hkept ⟨hd, hfin⟩) ((h.ledgers j).of_eq (Evolves.putLease _ _ _) rfl rfl rfl rfl)
      fun hcareful C =>
      (h.tenures hcareful C j).follow hok h.history hcareful hb hv hcur hf

/-- A lease write that was computed from a version, whenever it arrives. -/
theorem WriteOk.follows {w : LeaseWrite} (h : WriteOk F j s w) (hok : ClusterOk F j s) :
    ∃ v ∈ (s.clusters j).versions, v.lease.key = w.lease.key ∧
      v.lease.resourceVersion = w.lease.resourceVersion ∧
      (Drops v.lease (w.over v.lease) → Cleaned (s.clusters j) v.lease) ∧
      Follows F j s v (w.over v.lease) := by
  obtain ⟨v, hv, hkey, hrv, hclean, hw⟩ := h
  refine ⟨v, hv, hkey, hrv, hclean, ?_⟩
  cases w with
  | status l => exact hw.follows (hok.version v hv)
  | whole l =>
    obtain ⟨hspec, hfin⟩ := hw
    refine Follows.of_record (hok.version v hv) ⟨rfl, rfl, rfl, ?_, ?_, ?_⟩ rfl rfl hfin
    · exact congrArg BerthLeaseSpec.leaseName hspec
    · exact congrArg BerthLeaseSpec.holderIdentity hspec
    · exact congrArg BerthLeaseSpec.target hspec

theorem Site.Ok.applyWrite {w : LeaseWrite} (h : s.Ok F)
    (hb : Becomes s s' j ((s.clusters j).applyWrite s.log w).2) (hw : WriteOk F j s w) :
    s'.Ok F ∧ Tidy (s.clusters j) ((s.clusters j).applyWrite s.log w).2 := by
  have hok := h.clusters j
  unfold Cluster.applyWrite at hb ⊢
  split at hb
  · exact ⟨h.unchanged hb, Tidy.of_eq rfl⟩
  rename_i cur hcur
  dsimp only at hb ⊢
  split at hb
  · next hrv =>
    rw [if_pos hrv]
    exact ⟨h.unchanged hb, Tidy.of_eq rfl⟩
  · next hrv =>
    rw [if_neg hrv]
    obtain ⟨v, hv, _, hvrv, hclean, hf⟩ := hw.follows hok
    have hrv : cur.resourceVersion = v.lease.resourceVersion :=
      (not_not.mp hrv).trans hvrv.symm
    obtain ⟨rfl, hmem⟩ := hok.wf.cas hcur hv hrv
    exact ⟨h.replaceLease hb hv hmem hf, Tidy.replaceLease hok.wf hmem hf hclean⟩

/-- An object changes or appears. -/
theorem Site.Ok.putObject {o : Stored} (h : s.Ok F)
    (hb : Becomes s s' j ((s.clusters j).putObject o)) (ho : Origin (s.clusters j) o)
    (hr : Rests (s.clusters j) o) (hl : Ledger F ((s.clusters j).putObject o))
    (hbound : o.admitted ≠ "" → o.object.annotation managedUID = o.admitted)
    (hungated : o.object.isPod = true → o.admitted ≠ "" → o.object.pod.gateOn = false →
      ∃ v ∈ (s.clusters j).versions, v.lease.uid = o.admitted ∧
        ⟨o.object.name, o.object.uid⟩ ∈ v.lease.pods) : s'.Ok F := by
  have he := Evolves.putObject (h.clusters j).wf ho hr
  refine h.change hb he ((h.clusters j).putObject hb ho hr hbound hungated) hl fun hcareful C => ?_
  exact (h.tenures hcareful C j).of_eq (hb.carries he) (by rw [hb.here]; rfl) (by rw [hb.here]; rfl)

theorem Site.Ok.dropObject {k : ObjectKey} (h : s.Ok F)
    (hb : Becomes s s' j ((s.clusters j).dropObject k)) : s'.Ok F := by
  have he := Evolves.dropObject (s.clusters j) k
  refine h.change hb he ((h.clusters j).dropObject hb) ((h.ledgers j).dropObject k)
    fun hcareful C => ?_
  exact (h.tenures hcareful C j).of_eq (hb.carries he) (by rw [hb.here]; rfl) (by rw [hb.here]; rfl)

/-- A new lease under a UID that no version has. -/
theorem Site.Ok.createLease (h : s.Ok F) (hb : Becomes s s' j ((s.clusters j).putLease s.log l))
    (honly : ∀ C : Contention F, l.central = C.key → l.key = C.object j ∧
      (F.config j).holderFor l = C.holder j ∧ l.spec.target.isSome = true)
    (hst : l.status = {}) (hdel : l.deletionTimestamp = none)
    (huid : l.uid ≠ "" ∧ l.uid ∈ (s.clusters j).uids)
    (hnew : ∀ v ∈ (s.clusters j).versions, v.lease.uid ≠ l.uid)
    (hfree : ∀ m ∈ (s.clusters j).leases, m.key ≠ l.key) : s'.Ok F := by
  have hok := h.clusters j
  have hnone : l.status.workload = none := by rw [hst]
  have hwf : Wf ((s.clusters j).putLease s.log l) := by
    refine hok.wf.putLease huid (fun v hv heq => absurd heq (hnew v hv)) fun hd => ?_
    rw [hdel] at hd
    cases hd
  refine h.change hb (Evolves.putLease _ _ _) (hok.putLease hb hwf ?_ ?_ ?_)
    ((h.ledgers j).of_eq (Evolves.putLease _ _ _) rfl rfl rfl rfl) fun hcareful C =>
    (h.tenures hcareful C j).create hok hb (honly C) (phase_none hnone) hfree
  · refine ⟨fun _ => hnone, fun _ _ => by rw [hst], fun w hw => ?_⟩
    rw [hnone] at hw
    cases hw
  · exact fun m hm hkey => absurd hkey (hfree m hm)
  · intro _ hcalm _
    refine ⟨hcalm, fun x hx => ?_⟩
    rw [pods_none hnone] at hx
    cases hx

/-- A step of the central server. -/
theorem Site.Ok.serve {a : Action (Server.machine cfg)} {p : Pool (Server.machine cfg)}
    (h : s.Ok F) (hp : s.central.step a = some p)
    (hcall : cfg.careful = true → ∀ call, a = .spawn call → ∀ (C : Contention F) j t,
      call.op = some (.release C.key (C.holder j) t) →
      ∃ v ∈ (s.clusters j).versions, v.lease.central = C.key ∧ StoppedUnder v.lease t) :
    Site.Ok F { s with central := p } ∧ Carries s { s with central := p } := by
  have hstep : s.central.Reaches p := Relation.ReflTransGen.single ⟨a, hp⟩
  obtain ⟨t₀, h₀⟩ := h.server
  have hc : Carries s { s with central := p } :=
    ⟨hstep, (Server.reaches_later h₀ hstep).1, fun _ => Evolves.refl _⟩
  refine ⟨⟨⟨t₀, h₀.trans hstep⟩, fun j => (h.clusters j).same hc rfl, h.ledgers,
    fun hcareful C j => (h.tenures hcareful C j).of_eq hc rfl rfl,
    fun hcareful C call hmem j t hop => ?_⟩, hc⟩
  rcases Pool.mem_calls_step hp hmem with hmem | rfl
  · exact h.calls hcareful C call hmem j t hop
  · exact hcall hcareful call rfl C j t hop

end Berth.Operator
