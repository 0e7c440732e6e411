/-
Berth.Operator.ReconcilerTheorems — every thread of the operators keeps to
the discipline.

A pass works on a `Copy` of a version it has read: the version with other
reports. Each write of a pass is one of the moves, and the proof of each
function is the reason why. What comes last in a cleanup has the whole
cleanup in the journal before it.

`pool_ok` sums up: in every interleaving the invariant of the site holds,
and every thread is robust where it stands.
-/
import Berth.Operator.WorkloadTheorems

namespace Berth.Operator

open Berth.Interleave Berth.Lease Berth.Api Berth.Client

variable {ι : Type} {cfg : Server.Config} {F : Fleet ι} {i : Nat}
variable {t : Task ι} {s s' : Site ι cfg} {c c' : Cluster} {l m : BerthLease} {v : Version}

/-- A tenure in the log has a holder and a positive token. -/
theorem Existed.pos {ws : List (Write Server.Call)} {k : Key} {h : String} {tok : Int}
    (he : Existed ws k h tok) (hh : History ws) : h ≠ "" ∧ 0 < tok := by
  obtain ⟨hne, x, hx, _, hheld⟩ := he
  refine ⟨hne, ?_⟩
  have := (hh.token_bounds hx).1
  rw [hheld.2] at this
  omega

theorem Grant.earlier {ws : List (Write Server.Call)} {k : Key} {h : String} {tok : Int} {n : Nat}
    {d d' : Time} (hg : Grant ws n k h tok (some d)) (hle : d' ≤ d) :
    Grant ws n k h tok (timePtr d') := by
  obtain ⟨hne, x, post, hx, hlen, hk, hheld, hd⟩ := hg
  refine ⟨hne, x, post, hx, hlen, hk, hheld, fun e he => ?_⟩
  unfold timePtr at he
  split at he
  · cases he
  · cases he
    exact Int.le_trans hle (hd d rfl)

theorem minTime_le (a b : Time) : minTime a b ≤ b := by
  unfold minTime
  split
  · next h => exact Int.le_of_lt h
  · exact Int.le_refl b

/-! ## Copies -/

/-- What a pass has in memory: a version of its lease with other reports. -/
structure Copy (F : Fleet ι) (i : Nat) (t : Task ι) (v : Version) (m : BerthLease)
    (s : Site ι cfg) : Prop where
  read : Read F i t v s
  same : ∃ g cs, m = v.lease.reporting g cs
  fin : finalizerName ∈ v.lease.finalizers
  mine : t.what.lease? = some v.lease.key

theorem Copy.keeps (h : Copy F i t v m s) (hk : Keeps F i t s s') : Copy F i t v m s' :=
  ⟨h.read.keeps hk, h.same, h.fin, h.mine⟩

/-- A version is a copy of itself. -/
theorem Copy.of_read {n : Nat} (h : Read F i t ⟨l, n⟩ s) (hfin : finalizerName ∈ l.finalizers)
    (hmine : t.what.lease? = some l.key) : Copy F i t ⟨l, n⟩ l s :=
  ⟨h, ⟨l.status.observedGeneration, l.status.conditions, rfl⟩, hfin, hmine⟩

section Fields

variable (h : Copy F i t v m s)
include h

theorem Copy.key : v.lease.key = m.key := by
  obtain ⟨g, cs, rfl⟩ := h.same
  rfl

theorem Copy.rv : v.lease.resourceVersion = m.resourceVersion := by
  obtain ⟨g, cs, rfl⟩ := h.same
  rfl

theorem Copy.spec : m.spec = v.lease.spec := by
  obtain ⟨g, cs, rfl⟩ := h.same
  rfl

theorem Copy.workload : m.status.workload = v.lease.status.workload := by
  obtain ⟨g, cs, rfl⟩ := h.same
  rfl

theorem Copy.fencingToken : m.status.fencingToken = v.lease.status.fencingToken := by
  obtain ⟨g, cs, rfl⟩ := h.same
  rfl

theorem Copy.phase : m.phase = v.lease.phase := by
  rw [BerthLease.phase, BerthLease.phase, h.workload]

theorem Copy.pods : m.pods = v.lease.pods := by
  rw [BerthLease.pods, BerthLease.pods, h.workload]

theorem Copy.sameLease : SameLease v.lease m := by
  obtain ⟨g, cs, rfl⟩ := h.same
  exact ⟨rfl, rfl, rfl, rfl, rfl, rfl⟩

theorem Copy.versionOk (hok : s.Ok F) : VersionOk F t.cluster s v.lease :=
  (hok.clusters t.cluster).version v h.read.mem

end Fields

variable [DecidableEq ι]

/-- A status write that leaves the record alone. -/
theorem robust_report {α : Type} {Q : α → Task ι → Site ι cfg → Prop} {st : BerthLeaseStatus}
    {k : Except ApiErr BerthLease → Prog ClusterSig α} (hcopy : Copy F i t v m s)
    (hw : st.workload = m.status.workload)
    (hf : m.spec.target.isSome = true → st.fencingToken = m.status.fencingToken)
    (hk : ∀ r s', s'.Ok F → Carries s s' → Robust (discipline F cfg) i (k r) Q t s') :
    Robust (discipline F cfg) i ((updateStatus { m with status := st }).bind k) Q t s := by
  have hphase : ({ m with status := st } : BerthLease).phase = v.lease.phase := by
    rw [← hcopy.phase, BerthLease.phase, BerthLease.phase, ← hw]
  refine robust_updateStatus hcopy.read.mem hcopy.key hcopy.rv
    (.keep (hw.trans hcopy.workload) fun ht => ?_) (fun hact => .inl (hphase.symm.trans hact))
    (fun hd => ?_) fun r s' hok hc _ => hk r s' hok hc
  · rw [← hcopy.spec] at ht
    exact (hf ht).trans hcopy.fencingToken
  · rcases hd.2 with hidle | ⟨hin, hout⟩
    · exact absurd (hphase.symm.trans ((withStatus_phase v.lease _).symm.trans hidle)) hd.1
    · exact absurd hin hout

/-! ## Stopping -/

/-- Why `finishStop` may write what it writes: there is no target, or a
cleanup has just been made. -/
def Finished (F : Fleet ι) (i : Nat) (t : Task ι) (v : Version) (m : BerthLease)
    (s : Site ι cfg) : Prop :=
  v.lease.spec.target = none ∨
    Drained F i t v s ∧ (∀ w, v.lease.status.workload = some w → Settled t.cluster s v.lease w) ∧
      ∃ evs, Cleanup m evs ∧ Logged i t evs s

omit [DecidableEq ι] in
theorem Finished.accounted {o : ClusterOp} (h : Finished F i t v m s) (hok : s.Ok F)
    (hcopy : Copy F i t v m s) (hne : v.lease.phase ≠ .idle)
    (ho : o = .updateStatus (Reconciler.cleared m) ∨ o = .updateLease m.unfinalized) :
    Accounted i t v s o := by
  rcases h with hnone | ⟨_, _, evs, hclean, hlog⟩
  · exact absurd (phase_none ((hcopy.versionOk hok).bare hnone)) hne
  · obtain ⟨g, cs, rfl⟩ := hcopy.same
    exact ⟨g, cs, evs, hclean, ho, hlog⟩

theorem cleared_workload (m : BerthLease) :
    (Reconciler.cleared m).status.workload = m.status.workload.map Reconciler.clearedRecord := rfl

theorem cleared_phase (m : BerthLease) : (Reconciler.cleared m).phase = .idle := by
  unfold BerthLease.phase
  rw [cleared_workload]
  cases m.status.workload <;> rfl

theorem robust_finishStop (hok : s.Ok F) (hcopy : Copy F i t v m s)
    (h : Finished F i t v m s) :
    Robust (discipline F cfg) i (Reconciler.finishStop m) (fun _ t' _ => t' = t) t s := by
  have hv := hcopy.versionOk hok
  have hdone : ∀ r : Result, ∀ s', Robust (discipline F cfg) i (pure r) (fun _ t' _ => t' = t) t s' :=
    fun _ _ _ _ _ => rfl
  unfold Reconciler.finishStop
  split
  · refine robust_updateLease (l := m.unfinalized) hcopy.read.mem hcopy.key hcopy.rv hcopy.spec
      (.inr ⟨fun w hw => ?_, fun htarget => ?_, fun hne => ?_⟩) fun r s' _ _ => hdone _ s'
    · rcases h with hnone | ⟨_, hset, _⟩
      · rw [hv.bare hnone] at hw
        cases hw
      · exact hset w hw
    · have htarget : m.spec.target.isSome = true := htarget
      rw [hcopy.spec] at htarget
      rcases h with hnone | ⟨hdrained, _⟩
      · rw [hnone] at htarget
        cases htarget
      · exact ⟨hcopy.sameLease.uid.symm, hdrained⟩
    · exact h.accounted hok hcopy hne (.inr rfl)
  · refine robust_updateStatus hcopy.read.mem hcopy.key hcopy.rv ?_ (fun hact => ?_)
      (fun hd => h.accounted hok hcopy hd.1 (.inl rfl)) fun r s' _ _ _ => hdone _ s'
    · cases hw : v.lease.status.workload with
      | none =>
        have hnone : v.lease.spec.target = none := by
          rcases h with hnone | ⟨hdrained, _⟩
          · exact hnone
          · have := hdrained.stopping
            rw [phase_none hw] at this
            cases this
        refine .keep ?_ fun ht => ?_
        · rw [cleared_workload, hcopy.workload, hw]
          rfl
        · rw [hnone] at ht
          cases ht
      | some w =>
        rcases h with hnone | ⟨hdrained, hset, _⟩
        · rw [hv.bare hnone] at hw
          cases hw
        · refine .clear hw ((phase_some hw).symm.trans hdrained.stopping) (hset w hw) ?_
          rw [cleared_workload, hcopy.workload, hw]
          rfl
    · rw [cleared_phase] at hact
      cases hact

/-- What a pass over a stopping lease knows when nothing runs any more:
its Pods are dead, and the cleanup up to the release is in the journal. -/
structure Emptied (F : Fleet ι) (i : Nat) (t : Task ι) (v : Version) (m : BerthLease)
    (s : Site ι cfg) : Prop where
  drained : Drained F i t v s
  stopped : ∃ stop jobs pods, (stopTarget m).Ran stop none ∧ (drainJobs m).Ran jobs (.ok true) ∧
    (drainPods m).Ran pods (.ok true) ∧ Logged i t (stop ++ (jobs ++ pods)) s

omit [DecidableEq ι] in
/-- The tenure that a stopping version has recorded. -/
theorem VersionOk.stopping_tenure {w : WorkloadStatus} (h : VersionOk F t.cluster s v.lease)
    (hok : s.Ok F) (hw : v.lease.status.workload = some w) (hstop : v.lease.phase = .stopping)
    (htok : w.token ≠ 0) :
    w.leaseName = v.lease.spec.leaseName ∧ w.holder ≠ "" ∧ 0 < w.token ∧
      w.holder = (F.config t.cluster).holderFor v.lease ∧
      Existed s.central.shared.writes v.lease.central w.holder w.token := by
  obtain ⟨hname, hholder, hex⟩ := (h.record w hw).stopping ((phase_some hw).symm.trans hstop) htok
  obtain ⟨hne, hpos⟩ := hex.pos hok.history
  exact ⟨hname, hne, hpos, hholder, hex⟩

omit [DecidableEq ι] in
/-- After the release the cleanup is complete. -/
theorem Drained.finished {stop jobs pods release : List (Event ClusterSig)}
    (h : Drained F i t v s) (hstop : (stopTarget m).Ran stop none)
    (hjobs : (drainJobs m).Ran jobs (.ok true)) (hpods : (drainPods m).Ran pods (.ok true))
    (hrel : Released m release) (hlog : Logged i t (stop ++ (jobs ++ pods) ++ release) s)
    (hret : cfg.careful = true → ∀ w, v.lease.status.workload = some w → w.token ≠ 0 →
      RetiredBy s.central.shared.writes v.lease.central w.holder w.token s.log) :
    Finished F i t v m s := by
  refine .inr ⟨h, fun w hw => ⟨?_, ?_, fun hcareful => hret hcareful w hw⟩,
    _, ⟨stop, jobs, pods, release, rfl, hstop, hjobs, hpods, hrel⟩, ?_⟩
  · rw [← phase_some hw, h.stopping]
    exact (nomatch ·)
  · rw [← pods_some hw]
    exact h.dead
  · rwa [List.append_assoc, List.append_assoc] at hlog

/-- A lease without a target has only what it holds centrally to release. -/
theorem robust_releaseBare (hok : s.Ok F) (hcopy : Copy F i t v m s)
    (hnone : v.lease.spec.target = none) :
    Robust (discipline F cfg) i (Reconciler.releaseAndFinish m) (fun _ t' _ => t' = t) t s := by
  have htarget : m.spec.target = none := by rw [hcopy.spec, hnone]
  have hw : m.status.workload = none := by
    rw [hcopy.workload]
    exact (hcopy.versionOk hok).bare hnone
  have hid : Reconciler.releaseIdentity m =
      (m.status.currentHolder, m.status.fencingToken, m.spec.leaseName) := by
    rw [Reconciler.releaseIdentity, hw]
  unfold Reconciler.releaseAndFinish
  rw [hid]
  dsimp only
  split
  · refine robust_release (v := v) (fun hcareful C j hkey hholder => ?_) (fun ht => ?_)
      fun r s₁ hok₁ hk₁ _ => ?_
    · -- contenders have targets
      have hcentral : v.lease.central = C.key := hcopy.sameLease.central.symm.trans hkey
      have := ((hok.tenures hcareful C t.cluster).only v hcopy.read.mem hcentral).2.2
      rw [hnone] at this
      cases this
    · rw [htarget] at ht
      cases ht
    · have hfin := robust_finishStop hok₁ (hcopy.keeps hk₁) (.inl hnone)
      cases r with
      | ok _ => exact hfin
      | error e =>
        dsimp only
        split
        · exact hfin
        · exact fun _ _ _ => rfl
  · exact robust_finishStop hok hcopy (.inl hnone)

/-- A lease with a target releases what it recorded at activation. -/
theorem robust_releaseEmptied (hok : s.Ok F) (hcopy : Copy F i t v m s)
    (h : Emptied F i t v m s) :
    Robust (discipline F cfg) i (Reconciler.releaseAndFinish m) (fun _ t' _ => t' = t) t s := by
  have hv := hcopy.versionOk hok
  obtain ⟨w, hw⟩ := workload_of_phase (by rw [h.drained.stopping]; exact (nomatch ·))
  have hmw : m.status.workload = some w := hcopy.workload.trans hw
  have htenure := hv.stopping_tenure hok hw h.drained.stopping
  have hid : Reconciler.releaseIdentity m = (w.holder, w.token, w.leaseName) := by
    rw [Reconciler.releaseIdentity, hmw]
  unfold Reconciler.releaseAndFinish
  rw [hid]
  dsimp only
  split
  · next hne =>
    obtain ⟨hname, _, _, hholder, hex⟩ := htenure (by omega)
    have hkey : (⟨m.ns, w.leaseName⟩ : Key) = v.lease.central := by
      rw [hname, BerthLease.central, hcopy.sameLease.ns]
    have hrule : Robust (discipline F cfg) i
        (LeaseClient.release m ⟨m.ns, w.leaseName⟩ w.holder w.token (localTimeout.tdiv 2))
        (fun r t' s' => t' = t ∧ Keeps F i t s s' ∧
          (r = .ok () ∨ (∃ e, r = .error e ∧ e.is .clientConflict = true) → cfg.careful = true →
            RetiredBy s'.central.shared.writes v.lease.central w.holder w.token s'.log)) t s := by
      rw [← Prog.bind_ret (LeaseClient.release _ _ _ _ _)]
      refine robust_release (v := v) (fun hcareful C j hC hj => ?_) (fun _ => ⟨h.drained, ?_⟩)
        fun r s₁ _ hk₁ hret s' hi _ => ⟨rfl, hk₁.trans hi.toKeeps, fun hgone hcareful => ?_⟩
      · -- the holder is this cluster's own
        have hcentral : v.lease.central = C.key := hkey.symm.trans hC
        have honly := (hok.tenures hcareful C t.cluster).only v hcopy.read.mem hcentral
        have hsame : j = t.cluster := C.holder_inj _ _ (by rw [← hj, hholder, honly.2.1])
        subst hsame
        exact ⟨v, hcopy.read.mem, hcentral, h.drained.stopping, token_some hw, by omega⟩
      · refine ⟨hcopy.sameLease, h.drained.stopping, hkey, ?_, ?_⟩
        · rw [activation_some hw]
          exact hname
        · rw [holder_some hw, token_some hw]
      · have := hret hgone hcareful (by rw [hkey]; exact hex)
        rw [hkey] at this
        exact this.mono hi.carries.log hi.carries.log.length_le
    obtain ⟨stop, jobs, pods, hstop, hjobs, hpods, hlog⟩ := h.stopped
    refine Robust.bind ((robust_logged hlog hrule).mono ?_)
    rintro r t' s₁ hok₁ ⟨⟨rfl, hk₁, hret⟩, release, hran, hlog₁⟩
    have hfin : r = .ok () ∨ (∃ e, r = .error e ∧ e.is .clientConflict = true) →
        Robust (discipline F cfg) i (Reconciler.finishStop m) (fun _ t'' _ => t'' = t') t' s₁ := by
      intro hgone
      refine robust_finishStop hok₁ (hcopy.keeps hk₁) ((h.drained.keeps hk₁).finished hstop hjobs
        hpods (fun a ha _ => ?_) hlog₁ fun hcareful w' hw' _ => ?_)
      · rw [activation_some hmw] at ha
        cases ha
        exact ⟨r, hran, hgone⟩
      · rw [hw] at hw'
        cases hw'
        exact hret hgone hcareful
    cases r with
    | ok _ => exact hfin (.inl rfl)
    | error e =>
      dsimp only
      split
      · next he => exact hfin (.inr ⟨e, rfl, he⟩)
      · exact fun _ _ _ => rfl
  · next hno =>
    -- nothing was ever acquired under this record
    have hzero : ¬ w.token ≠ 0 := fun htok => by
      obtain ⟨_, hne, hpos, _⟩ := htenure htok
      exact hno ⟨hne, hpos⟩
    obtain ⟨stop, jobs, pods, hstop, hjobs, hpods, hlog⟩ := h.stopped
    have hrel : Released m [] := by
      intro a ha htok
      rw [activation_some hmw] at ha
      cases ha
      exact absurd htok hzero
    refine robust_finishStop hok hcopy (h.drained.finished hstop hjobs hpods hrel
      (by rwa [List.append_nil]) fun _ w' hw' htok => ?_)
    · rw [hw] at hw'
      cases hw'
      exact absurd htok hzero

theorem robust_drainAndRelease (hcopy : Copy F i t v m s) (hstop : v.lease.phase = .stopping) :
    Robust (discipline F cfg) i (Reconciler.drainAndRelease m) (fun _ t' _ => t' = t) t s := by
  refine Robust.bind ((robust_logged Logged.nil (robust_gentle (gentle_stopTarget m)
    (Q := fun _ t' s' => t' = t ∧ Keeps F i t s s') fun _ _ hk _ => ⟨rfl, hk⟩)).mono ?_)
  rintro r t' s₁ hok₁ ⟨⟨rfl, hk₁⟩, stop, hran₁, hlog₁⟩
  cases r with
  | some e => exact fun _ _ _ => rfl
  | none =>
    refine Robust.bind ((robust_logged hlog₁ (robust_gentle (gentle_drainJobs m)
      (Q := fun _ t'' s' => t'' = t' ∧ Keeps F i t' s₁ s') fun _ _ hk _ => ⟨rfl, hk⟩)).mono ?_)
    rintro r t'' s₂ hok₂ ⟨⟨rfl, hk₂⟩, jobs, hran₂, hlog₂⟩
    cases r with
    | error e => exact fun _ _ _ => rfl
    | ok jobsDone =>
      have hcopy₂ := hcopy.keeps (hk₁.trans hk₂)
      refine Robust.bind ((robust_logged hlog₂ (robust_drainPods fun x hx => ?_)).mono ?_)
      · obtain ⟨w, hw⟩ := workload_of_phase (by rw [hstop]; exact (nomatch ·))
        rw [hcopy.pods, pods_some hw] at hx
        have hpin := ((hcopy₂.versionOk hok₂).record w hw).pinned x hx
        rw [hcopy.sameLease.ns, hcopy.sameLease.uid]
        exact hpin
      · rintro r t' s₃ hok₃ ⟨⟨rfl, hk₃, hdead⟩, pods, hran₃, hlog₃⟩
        cases r with
        | error e => exact fun _ _ _ => rfl
        | ok done =>
          dsimp only
          split
          · next hdone =>
            rw [Bool.and_eq_true] at hdone
            obtain ⟨rfl, rfl⟩ := hdone
            have hcopy₃ := hcopy₂.keeps hk₃
            refine robust_releaseEmptied hok₃ hcopy₃ ⟨⟨hcopy₃.read, hstop, hcopy.mine, ?_⟩,
              stop, jobs, pods, hran₁, hran₂, hran₃, ?_⟩
            · rw [← hcopy.pods]
              exact hdead rfl
            · rwa [List.nil_append, List.append_assoc] at hlog₃
          · exact fun _ _ _ => rfl

theorem closed_workload (m : BerthLease) : (Reconciler.closed m).status.workload =
    some { Reconciler.stopRecord m with phase := .stopping } := rfl

theorem robust_stopAndRelease (hok : s.Ok F) (hcopy : Copy F i t v m s) :
    Robust (discipline F cfg) i (Reconciler.stopAndRelease m) (fun _ t' _ => t' = t) t s := by
  unfold Reconciler.stopAndRelease
  split
  · next hnone =>
    refine robust_releaseBare hok hcopy ?_
    rw [← hcopy.spec]
    exact Option.isNone_iff_eq_none.mp hnone
  · next hsome =>
    split
    · next hstop => exact robust_drainAndRelease hcopy (hcopy.phase.symm.trans hstop)
    rename_i hstop
    have hrecord : Reconciler.stopRecord m = Reconciler.stopRecord v.lease := by
      obtain ⟨g, cs, rfl⟩ := hcopy.same
      rfl
    have hphase : (Reconciler.closed m).phase = .stopping := phase_some (closed_workload m)
    refine robust_updateStatus hcopy.read.mem hcopy.key hcopy.rv
      (.stop (by rwa [← hcopy.phase]) ?_ (by rw [closed_workload, hrecord])) (fun hact => ?_)
      (fun hd => ?_) fun r s₁ _ _ hr => ?_
    · rw [← hcopy.spec]
      simpa [Option.isSome_iff_ne_none] using hsome
    · rw [hphase] at hact
      cases hact
    · rcases hd.2 with hidle | ⟨hin, hout⟩
      · rw [withStatus_phase, hphase] at hidle
        cases hidle
      · exact absurd hin hout
    · cases r with
      | error e => exact fun _ _ _ => rfl
      | ok l' =>
        obtain ⟨rv, n, rfl, _, hread⟩ := hr l' rfl (List.ne_nil_of_mem hcopy.fin)
        exact robust_drainAndRelease (Copy.of_read hread hcopy.fin hcopy.mine)
          ((withStatus_phase v.lease _).trans hphase)

/-! ## Holding -/

theorem gentle_untilDeadline (l : BerthLease) : Gentle (Reconciler.untilDeadline l) :=
  gentle_effect (o := .now) rfl fun _ => gentle_pure _

theorem gentle_lapsed (l : BerthLease) : Gentle (Reconciler.lapsed l) := by
  unfold Reconciler.lapsed
  split
  · split
    · exact gentle_effect (o := .now) rfl fun _ => gentle_pure _
    · exact gentle_pure _
  · exact gentle_effect (o := .now) rfl fun _ => gentle_pure _
  · exact gentle_pure _

theorem gentle_clip (l : BerthLease) (τ : Time) (d : Duration) :
    Gentle (Reconciler.clip l τ d) := by
  unfold Reconciler.clip
  split
  · exact (gentle_untilDeadline l).bind fun _ => gentle_pure _
  · exact gentle_pure _

theorem gentle_mustStop (cfg : Config) (l : BerthLease) : Gentle (Reconciler.mustStop cfg l) := by
  unfold Reconciler.mustStop
  split
  · exact gentle_pure _
  split
  · exact gentle_pure _
  split
  · exact gentle_pure _
  · exact gentle_pure _
  · exact gentle_effect (o := .now) rfl fun _ => gentle_pure _

theorem gentle_comeBack (d : Duration) (τ : Time) : Gentle (Reconciler.comeBack d τ) :=
  gentle_effect (o := .now) rfl fun _ => gentle_pure _

/-- A lease that goes on is not stopping. -/
theorem mustStop_false {cfg : Config} {evs : List (Event ClusterSig)}
    (h : (Reconciler.mustStop cfg l).Ran evs false) : l.phase ≠ .stopping := by
  intro hstop
  obtain ⟨w, hw⟩ := workload_of_phase (by rw [hstop]; exact (nomatch ·))
  rw [phase_some hw] at hstop
  unfold Reconciler.mustStop at h
  split at h
  · cases h
  · rw [hw] at h
    simp only [hstop] at h
    cases h

theorem robust_acquireFailed {d : Duration} {e : Err} (hcopy : Copy F i t v m s) :
    Robust (discipline F cfg) i (Reconciler.acquireFailed m d e) (fun _ t' _ => t' = t) t s := by
  refine Robust.bind (robust_gentle (gentle_lapsed m) fun b s₁ hk₁ hok₁ => ?_)
  cases b with
  | true => exact robust_stopAndRelease hok₁ (hcopy.keeps hk₁)
  | false =>
    refine robust_now fun τ s₂ _ hk₂ => ?_
    refine Robust.bind (robust_gentle (gentle_clip m τ _) fun _ s₃ hk₃ _ => ?_)
    exact robust_report (hcopy.keeps (hk₁.trans (hk₂.trans hk₃))) rfl (fun _ => rfl)
      fun _ _ _ _ _ _ _ => rfl

theorem robust_heldByOther {d ttl : Duration} {res : AcquireResult} (hok : s.Ok F)
    (hcopy : Copy F i t v m s) :
    Robust (discipline F cfg) i (Reconciler.heldByOther m d ttl res) (fun _ t' _ => t' = t) t s := by
  unfold Reconciler.heldByOther
  split
  · exact robust_stopAndRelease hok hcopy
  · next hnone =>
    exact robust_report (m := m) hcopy rfl (fun ht => absurd ht hnone) fun _ _ _ _ _ _ _ => rfl

theorem robust_activateTarget {d : Duration} {τ : Time} {n : Nat}
    (hl : ⟨l, n⟩ ∈ (s.clusters t.cluster).versions) :
    Robust (discipline F cfg) i (Reconciler.activateTarget l d τ) (fun _ t' _ => t' = t) t s := by
  refine Robust.bind (robust_gentle (gentle_applyFencedAction _ _ _ _ _) fun r s₁ hk₁ _ => ?_)
  cases r with
  | some e => exact fun _ _ _ => rfl
  | none =>
    refine Robust.bind ((robust_permitPods (hk₁.evolves.versions.subset hl)).mono ?_)
    rintro r t' s₂ _ rfl
    cases r with
    | some e => exact fun _ _ _ => rfl
    | none => exact robust_gentle (gentle_comeBack d τ) fun _ _ _ _ => rfl

theorem heldStatus_workload (m : BerthLease) (w : Option WorkloadStatus) (res : AcquireResult)
    (τ : Time) : (Reconciler.heldStatus m w res τ).status.workload = w := rfl

theorem robust_persist {w : Option WorkloadStatus} {res : AcquireResult} {d : Duration}
    {deadline : Time} (hcopy : Copy F i t v m s)
    (hmove : ∀ τ s', s'.Ok F → Keeps F i t s s' →
      Move F t.cluster s' v (Reconciler.heldStatus m w res τ).status)
    (hkept : v.lease.phase ≠ .idle → (m.withWorkload w).phase ≠ .idle) :
    Robust (discipline F cfg) i (Reconciler.persist m w res d deadline)
      (fun _ t' _ => t' = t) t s := by
  refine robust_now fun τ s₁ hok₁ hk₁ => ?_
  have hcopy₁ := hcopy.keeps hk₁
  refine robust_updateStatus hcopy₁.read.mem hcopy₁.key hcopy₁.rv (hmove τ s₁ hok₁ hk₁)
    (fun _ => .inr (hcopy.mine.trans (congrArg some hcopy.key))) (fun hd => ?_)
    fun r s₂ _ _ hr => ?_
  · rcases hd.2 with hidle | ⟨hin, hout⟩
    · rw [withStatus_phase] at hidle
      exact absurd hidle (hkept hd.1)
    · exact absurd hin hout
  · cases r with
    | error e => exact fun _ _ _ => rfl
    | ok l' =>
      obtain ⟨_, n, _, _, hread⟩ := hr l' rfl (List.ne_nil_of_mem hcopy.fin)
      dsimp only
      split
      · exact robust_activateTarget hread.mem
      · exact robust_gentle (gentle_comeBack d deadline) fun _ _ _ _ => rfl

theorem robust_hold {res : AcquireResult} {d : Duration} {deadline : Time} (hok : s.Ok F)
    (hcopy : Copy F i t v m s) (hstop : v.lease.phase ≠ .stopping)
    (hholder : res.holder = (F.config t.cluster).holderFor v.lease)
    (hgrant : Grant s.central.shared.writes v.born v.lease.central
      ((F.config t.cluster).holderFor v.lease) res.fencingToken (timePtr deadline)) :
    Robust (discipline F cfg) i (Reconciler.hold m res d deadline) (fun _ t' _ => t' = t) t s := by
  unfold Reconciler.hold
  split
  · next hnone =>
    -- without a target only the reports change
    rw [hcopy.spec] at hnone
    refine robust_persist hcopy (fun τ s' _ _ => .keep hcopy.workload fun ht => ?_) fun hne => ?_
    · rw [hnone] at ht
      cases ht
    · exact absurd (phase_none ((hcopy.versionOk hok).bare hnone)) hne
  · exact fun _ _ _ => rfl
  · next w _ hmw =>
    have hw : v.lease.status.workload = some w := hcopy.workload.symm.trans hmw
    split
    · exact robust_stopAndRelease hok hcopy
    rename_i htok
    have hrec := (hcopy.versionOk hok).record w hw
    have hpin : ∀ x ∈ (Reconciler.activeRecord m w res deadline).pods,
        Pinned (s.clusters t.cluster) m.ns v.lease.uid x.uid := by
      rw [hcopy.sameLease.ns]
      exact hrec.pinned
    refine Robust.bind ((robust_pruneCompleted hpin).mono ?_)
    rintro r t' s₁ _ ⟨rfl, hk₁, hr⟩
    cases r with
    | error e => exact fun _ _ _ => rfl
    | ok w' =>
      obtain ⟨ps, rfl, hsub, hdead⟩ := hr w' rfl
      refine robust_persist (hcopy.keeps hk₁) (fun τ s₂ _ hk₂ => .activate hw
        (by rwa [← phase_some hw]) (fun hact => ?_) hsub
        (fun x hx hn => (hdead x hx hn).evolves hk₂.evolves) hcopy.fin
        (hgrant.mono (hk₁.trans hk₂).carries.log) ?_) fun _ => (nomatch ·)
      · by_contra hne
        exact htok ⟨hact, hne⟩
      · rw [heldStatus_workload, Reconciler.activeRecord, hholder, hcopy.spec]

theorem robust_granted {res : AcquireResult} {d ttl : Duration} {started : Time}
    (hcopy : Copy F i t v m s) (hstop : v.lease.phase ≠ .stopping)
    (hgrant : Grant s.central.shared.writes v.born v.lease.central
      ((F.config t.cluster).holderFor v.lease) res.fencingToken (some res.expiresAt)) :
    Robust (discipline F cfg) i
      (Reconciler.granted (F.config t.cluster) m d ttl started res) (fun _ t' _ => t' = t) t s := by
  unfold Reconciler.granted
  split
  · exact fun _ _ _ => rfl
  rename_i hgood
  rw [not_or, not_not, hcopy.sameLease.holderFor] at hgood
  refine robust_now fun τ s₁ hok₁ hk₁ => ?_
  split
  · exact fun _ _ _ => rfl
  refine robust_now fun τ' s₂ hok₂ hk₂ => ?_
  have hcopy₂ := hcopy.keeps (hk₁.trans hk₂)
  split
  · exact robust_stopAndRelease hok₂ hcopy₂
  · refine robust_hold hok₂ hcopy₂ hstop hgood.2
      ((hgrant.mono (hk₁.trans hk₂).carries.log).earlier ?_)
    exact Int.le_trans (truncSecond_le _) (minTime_le _ _)

theorem robust_acquirePass (hok : s.Ok F) (hcopy : Copy F i t v m s)
    (hstop : v.lease.phase ≠ .stopping) :
    Robust (discipline F cfg) i (Reconciler.acquire (F.config t.cluster) m)
      (fun _ t' _ => t' = t) t s := by
  refine robust_now fun started s₁ _ hk₁ => ?_
  refine Robust.bind (robust_gentle (gentle_clip m started _) fun budget s₂ hk₂ _ => ?_)
  have hborn : v.born ≤ s₂.log :=
    Nat.le_trans ((hok.clusters t.cluster).born v hcopy.read.mem)
      (hk₁.trans hk₂).carries.log.length_le
  refine robust_acquire hborn fun r s₃ hok₃ hk₃ hr => ?_
  have hcopy₃ := hcopy.keeps ((hk₁.trans hk₂).trans hk₃)
  cases r with
  | error e => exact robust_acquireFailed hcopy₃
  | ok res =>
    dsimp only
    split
    · exact robust_heldByOther hok₃ hcopy₃
    rename_i hacq
    have hgrant := hr res rfl (by simpa using hacq)
    rw [hcopy.sameLease.central, hcopy.sameLease.holderFor] at hgrant
    exact robust_granted hcopy₃ hstop hgrant

theorem robust_unverified {e : Err} (hok : s.Ok F) (hcopy : Copy F i t v m s) :
    Robust (discipline F cfg) i (Reconciler.unverified m e) (fun _ t' _ => t' = t) t s := by
  unfold Reconciler.unverified
  split
  · exact robust_stopAndRelease hok hcopy
  · refine Robust.bind (robust_gentle (gentle_stopTarget m) fun _ s₁ hk₁ _ => ?_)
    exact robust_report (m := m) (hcopy.keeps hk₁) rfl (fun _ => rfl) fun _ _ _ _ _ _ _ => rfl

theorem robust_observe (hcopy : Copy F i t v m s) :
    Robust (discipline F cfg) i (Reconciler.observe (F.config t.cluster) m)
      (fun _ t' _ => t' = t) t s := by
  refine Robust.bind ((robust_logged Logged.nil (robust_gentle (gentle_mustStop _ m)
    (Q := fun _ t' s' => t' = t ∧ Keeps F i t s s') fun _ _ hk _ => ⟨rfl, hk⟩)).mono ?_)
  rintro b t' s₁ hok₁ ⟨⟨rfl, hk₁⟩, evs, hran, _⟩
  have hcopy₁ := hcopy.keeps hk₁
  cases b with
  | true => exact robust_stopAndRelease hok₁ hcopy₁
  | false =>
    have hstop : v.lease.phase ≠ .stopping := by
      rw [← hcopy.phase]
      exact mustStop_false hran
    cases validateSpec m.spec with
    | some e =>
      cases m.spec.target with
      | some τ => exact robust_stopAndRelease hok₁ hcopy₁
      | none =>
        exact robust_report (m := m) hcopy₁ rfl (fun _ => rfl) fun _ _ _ _ _ _ _ => rfl
    | none =>
      cases m.spec.target with
      | none => exact robust_acquirePass hok₁ hcopy₁ hstop
      | some τ =>
        refine Robust.bind (robust_gentle (gentle_verifyTarget _ m τ) fun r s₂ hk₂ hok₂ => ?_)
        cases r with
        | some e => exact robust_unverified hok₂ (hcopy₁.keeps hk₂)
        | none => exact robust_acquirePass hok₂ (hcopy₁.keeps hk₂) hstop

/-- A pass over its lease. -/
theorem robust_reconcile {key : Key} (hmine : t.what.lease? = some key) :
    Robust (discipline F cfg) i (Reconciler.reconcile (F.config t.cluster) key)
      (fun _ t' _ => t' = t) t s := by
  refine robust_getLease fun r s₁ _ _ hr => ?_
  cases r with
  | error e => exact fun _ _ _ => rfl
  | ok l =>
    obtain ⟨rfl, hsince⟩ := hr l rfl
    obtain ⟨n, _, hread⟩ := hsince.read
    dsimp only
    split
    · split
      · exact fun _ _ _ => rfl
      · -- the finalizer goes on
        refine robust_updateLease (v := ⟨l, n⟩) hread.mem rfl rfl rfl
          (.inl (List.mem_append_right _ (List.mem_singleton.mpr rfl)))
          fun _ _ _ _ _ _ _ => rfl
    · next hfin =>
      exact robust_observe (v := ⟨l, n⟩) ⟨hread, ⟨_, _, rfl⟩, not_not.mp hfin, hmine⟩

/-! ## Pods and Jobs -/

theorem robust_reconcilePod (key : Key) :
    Robust (discipline F cfg) i (Reconciler.reconcilePod key) (fun _ t' _ => t' = t) t s := by
  refine robust_getObject fun r s₁ _ _ hr => ?_
  cases r with
  | error e => exact fun _ _ _ => rfl
  | ok pod =>
    obtain ⟨hkey, s₀, _, hok₀, ⟨q, hq, rfl⟩, h₁⟩ := hr pod rfl
    have hkey := ObjectKey.mk.inj hkey
    have hobs := (Observed.of_stored (hok₀.clusters t.cluster).wf hq hkey.1 hkey.2.1).evolves
      h₁.evolves
    have hdelete : ∀ (d : Duration) s', Robust (discipline F cfg) i
        ((deleteUID q.object).bind fun e => pure ({ requeueAfter := d, err := e } : Result))
        (fun _ t' _ => t' = t) t s' := fun _ _ =>
      robust_gentle ((gentle_deleteUID q.object).bind fun _ => gentle_pure _) fun _ _ _ _ => rfl
    dsimp only
    split
    · exact fun _ _ _ => rfl
    refine robust_getLease fun r s₂ _ hk₂ hr => ?_
    cases r with
    | error e =>
      cases e with
      | notFound => exact hdelete 0 s₂
      | conflict => exact fun _ _ _ => rfl
      | other e => exact fun _ _ _ => rfl
    | ok l =>
      obtain ⟨hlkey, hsince⟩ := hr l rfl
      obtain ⟨n, _, hread⟩ := hsince.read
      dsimp only
      split
      · exact hdelete 0 s₂
      split
      · exact hdelete second s₂
      refine robust_now fun τ s₃ _ hk₃ => ?_
      split
      · exact fun _ _ _ => rfl
      have hns : l.ns = q.object.ns := (Key.mk.inj hlkey).1
      refine Robust.bind ((robust_permitPod (hk₃.evolves.versions.subset hread.mem)
        (by rw [hns]; exact hobs.evolves (hk₂.trans hk₃).evolves)).mono ?_)
      rintro r t' s₄ _ ⟨rfl, _⟩
      cases r <;> exact fun _ _ _ => rfl

theorem gentle_stopJob (job : Object) : Gentle (Reconciler.stopJob job) := by
  refine (gentle_suspendJob job).bind fun r => ?_
  cases r with
  | some e => exact gentle_pure _
  | none => exact (gentle_deleteUID job).bind fun _ => gentle_pure _

theorem gentle_reconcileJob (key : Key) : Gentle (Reconciler.reconcileJob key) := by
  refine gentle_effect (o := .getObject _) rfl fun (r : Except ApiErr Object) => ?_
  cases r with
  | error e => exact gentle_pure _
  | ok job =>
    dsimp only
    split
    · exact gentle_pure _
    refine gentle_effect (o := .getLease _) rfl fun (r : Except ApiErr BerthLease) => ?_
    cases r with
    | error e =>
      cases e with
      | notFound => exact gentle_stopJob job
      | conflict => exact gentle_pure _
      | other e => exact gentle_pure _
    | ok l =>
      dsimp only
      split
      · exact gentle_stopJob job
      · exact gentle_pure _

/-! ## All threads -/

theorem robust_work :
    Robust (discipline F cfg) i (t.what.prog (F.config t.cluster)) (fun _ t' _ => t' = t) t s := by
  obtain ⟨j, what⟩ := t
  cases what with
  | reconcile key =>
    refine Robust.bind ((robust_reconcile (t := ⟨j, .reconcile key⟩) rfl).mono ?_)
    rintro r t' s₁ _ rfl
    exact robust_gentle (gentle_effect (o := .finish) rfl fun _ => gentle_pure _) fun _ _ _ _ => rfl
  | reconcilePod key =>
    refine Robust.bind ((robust_reconcilePod (t := ⟨j, .reconcilePod key⟩) key).mono ?_)
    rintro r t' s₁ _ rfl
    exact fun _ _ _ => rfl
  | reconcileJob key =>
    exact robust_gentle ((gentle_reconcileJob key).bind fun _ => gentle_pure _) fun _ _ _ _ => rfl
  | write id =>
    refine Robust.bind ((robust_handleWrite (t := ⟨j, .write id⟩) _).mono ?_)
    rintro r t' s₁ _ rfl
    exact fun _ _ _ => rfl

omit [DecidableEq ι]

theorem Wf.empty : Wf {} := by
  constructor <;> simp

theorem Ledger.empty : Ledger F {} := by
  refine ⟨⟨?_, ?_, ?_⟩, ⟨?_, ?_, ?_⟩, fun _ => ⟨?_, ?_, ?_⟩⟩ <;> simp [Fenced, Created]

/-- A new site is fine. -/
theorem Site.Ok.new (τ : Time) : (Site.new cfg τ : Site ι cfg).Ok F where
  server := ⟨τ, Relation.ReflTransGen.refl⟩
  clusters := fun j => by
    refine ⟨Wf.empty, ?_, ?_, ?_, ?_, ?_, ?_, ?_, ?_⟩ <;> simp [Site.new]
  ledgers := fun _ => Ledger.empty
  tenures := fun _ C j => by
    constructor <;> simp [Site.new]
  calls := fun _ C call hcall => by
    cases hcall

variable [DecidableEq ι]

/-- Soundness of the discipline for the operators. -/
theorem pool_ok {τ : Time} {p : Pool (machine F cfg)} (h : (fresh F cfg τ).Reaches p) :
    PoolOk (discipline F cfg) (fun _ t _ t' _ => t' = t) p := by
  refine PoolOk.reaches ?_ (fun _ _ => trivial) (PoolOk.empty (Site.Ok.new τ) fun _ => trivial) h
    trivial
  intro n t s t' s' _ _ _ hstart
  obtain ⟨rfl, _⟩ := enter_cases hstart
  exact robust_work

theorem site_ok {τ : Time} {p : Pool (machine F cfg)} (h : (fresh F cfg τ).Reaches p) :
    Site.Ok F p.shared := (pool_ok h).inv

end Berth.Operator
