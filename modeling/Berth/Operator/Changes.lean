/-
Berth.Operator.Changes — how the stored state of a lease may change.

`Follows` is what one state of a lease and the next have to do with each
other, whoever made the change: a `Move` of an operator's status write or
an edit by a user.
-/
import Berth.Operator.WellFormed

namespace Berth.Operator

open Berth.Interleave Berth.Lease Berth.Api Berth.Client

variable {ι : Type} {cfg : Server.Config} {F : Fleet ι} {j : ι}
variable {s s' s'' : Site ι cfg} {c c' : Cluster} {l m cur : BerthLease} {v : Version}

/-! ## Changes of a lease -/

/-- What is recorded at activation and needed for the cleanup. -/
structure Activation where
  targetUID : String
  leaseName : String
  holder : String
  token : Int
  deriving DecidableEq

def WorkloadStatus.activation (w : WorkloadStatus) : Activation :=
  ⟨w.targetUID, w.leaseName, w.holder, w.token⟩

def BerthLease.activation (l : BerthLease) : Option Activation :=
  l.status.workload.map WorkloadStatus.activation

theorem activation_some {w : WorkloadStatus} (h : l.status.workload = some w) :
    l.activation = some w.activation := by
  simp [BerthLease.activation, h]

/-- `l` may be stored in place of version `v`. -/
structure Follows (F : Fleet ι) (j : ι) (s : Site ι cfg) (v : Version) (l : BerthLease) : Prop where
  same : SameLease v.lease l
  ok : VersionOk F j s l
  kept : ∀ x ∈ v.lease.pods, x ∈ l.pods ∨ Dead (s.clusters j) x.uid
  calm : l.phase ≠ .active → l.pods ⊆ v.lease.pods
  active : l.phase = .active → v.lease.phase ≠ .stopping ∧
    (v.lease.phase = .active ∧ v.lease.token = l.token ∨
      ∃ d, Grant s.central.shared.writes v.born l.central l.holder l.token d)
  stopping : l.phase = .stopping → l.token ≠ 0 →
    v.lease.phase ≠ .idle ∧ v.lease.token = l.token ∧ v.lease.holder = l.holder
  idle : l.phase = .idle → v.lease.phase ≠ .active
  constant : v.lease.phase ≠ .idle → l.phase ≠ .idle → l.activation = v.lease.activation
  left : cfg.careful = true → v.lease.phase = .stopping → v.lease.token ≠ 0 →
    l.phase = .stopping ∧ l.token = v.lease.token ∨
      RetiredBy s.central.shared.writes v.lease.central v.lease.holder v.lease.token s.log

/-- A move is a change. -/
theorem Move.follows {st : BerthLeaseStatus} (h : Move F j s v st)
    (hv : VersionOk F j s v.lease) : Follows F j s v (v.lease.withStatus st) where
  same := ⟨rfl, rfl, rfl, rfl, rfl, rfl⟩
  ok := h.versionOk hv
  kept := fun x hx => h.pods_kept hx
  calm := h.pods_subset
  active := fun hact => by
    refine ⟨h.active_cases hact, ?_⟩
    cases h with
    | keep hw hf => exact .inl ⟨phase_same hw ▸ hact, (token_same hw).symm⟩
    | record hidle hpods htarget haim hw =>
      rw [phase_some (stored_workload hw)] at hact
      cases hact
    | activate hb hphase htok hpods hdead hfin hgrant hw =>
      rw [token_some (stored_workload hw), holder_some (stored_workload hw)]
      exact .inr ⟨_, hgrant⟩
    | register hb hphase hlen hpin hw =>
      rw [phase_some hb, token_some hb, token_some (stored_workload hw)]
      exact .inl ⟨hphase, rfl⟩
    | stop hphase htarget hw =>
      rw [phase_some (stored_workload hw)] at hact
      cases hact
    | clear hb hphase hset hw =>
      rw [phase_some (stored_workload hw)] at hact
      cases hact
  stopping := fun hstop htok => by
    cases h with
    | keep hw hf =>
      rw [phase_same hw] at hstop
      rw [token_same hw, holder_same hw, hstop]
      exact ⟨by decide, rfl, rfl⟩
    | record hidle hpods htarget haim hw =>
      rw [phase_some (stored_workload hw)] at hstop
      cases hstop
    | activate hb hphase htok' hpods hdead hfin hgrant hw =>
      rw [phase_some (stored_workload hw)] at hstop
      cases hstop
    | register hb hphase hlen hpin hw =>
      rw [phase_some (stored_workload hw)] at hstop
      rw [hphase] at hstop
      cases hstop
    | stop hphase htarget hw =>
      rw [token_some (stored_workload hw)] at htok
      rw [token_some (stored_workload hw), holder_some (stored_workload hw)]
      cases hwork : v.lease.status.workload with
      | none =>
        simp only [Reconciler.stopRecord, hwork, Option.getD_none] at htok
        exact absurd (hv.unset hwork htarget) htok
      | some w =>
        simp only [Reconciler.stopRecord, hwork, Option.getD_some] at htok ⊢
        rw [phase_some hwork, token_some hwork, holder_some hwork]
        exact ⟨fun hi => htok ((hv.record w hwork).idle hi).1, rfl, rfl⟩
    | clear hb hphase hset hw =>
      rw [phase_some (stored_workload hw)] at hstop
      cases hstop
  idle := fun hidle => by
    cases h with
    | keep hw hf =>
      rw [phase_same hw] at hidle
      rw [hidle]
      decide
    | record hidle' hpods htarget haim hw =>
      rw [hidle']
      decide
    | activate hb hphase htok hpods hdead hfin hgrant hw =>
      rw [phase_some (stored_workload hw)] at hidle
      cases hidle
    | register hb hphase hlen hpin hw =>
      rw [phase_some (stored_workload hw), hphase] at hidle
      cases hidle
    | stop hphase htarget hw =>
      rw [phase_some (stored_workload hw)] at hidle
      cases hidle
    | clear hb hphase hset hw =>
      rw [phase_some hb, hphase]
      decide
  constant := fun hne hne' => by
    cases h with
    | keep hw hf =>
      obtain ⟨w, hwork⟩ := workload_of_phase hne
      rw [hwork] at hw
      rw [activation_some hwork, activation_some (stored_workload hw)]
      rfl
    | record hidle hpods htarget haim hw => exact absurd hidle hne
    | @activate w pods tok deadline hb hphase htok hpods hdead hfin hgrant hw =>
      -- the record it had was an activation of the same identity
      have hact : w.phase = .active := by
        rw [phase_some hb] at hne
        cases hp : w.phase with
        | idle => exact absurd hp hne
        | active => rfl
        | stopping => exact absurd hp hphase
      obtain ⟨_, hname, hholder, _⟩ := (hv.record w hb).active hact
      rw [activation_some hb, activation_some (stored_workload hw)]
      simp only [WorkloadStatus.activation]
      rw [hname, hholder, htok hact]
    | register hb hphase hlen hpin hw =>
      rw [activation_some hb, activation_some (stored_workload hw)]
      rfl
    | stop hphase htarget hw =>
      obtain ⟨w, hwork⟩ := workload_of_phase hne
      rw [activation_some hwork, activation_some (stored_workload hw)]
      simp only [Reconciler.stopRecord, hwork, Option.getD_some]
      rfl
    | clear hb hphase hset hw =>
      rw [phase_some (stored_workload hw)] at hne'
      exact absurd rfl hne'
  left := fun hcareful hstop htok => by
    cases h with
    | keep hw hf => exact .inl ⟨(phase_same hw).trans hstop, token_same hw⟩
    | record hidle hpods htarget haim hw =>
      rw [hidle] at hstop
      cases hstop
    | activate hb hphase htok' hpods hdead hfin hgrant hw =>
      rw [phase_some hb] at hstop
      exact absurd hstop hphase
    | register hb hphase hlen hpin hw =>
      rw [phase_some hb, hphase] at hstop
      cases hstop
    | stop hphase htarget hw => exact absurd hstop hphase
    | clear hb hphase hset hw =>
      rw [token_some hb] at htok ⊢
      rw [holder_some hb]
      exact .inr (hset.retired hcareful htok)

/-- A change that leaves the workload record alone and takes the finalizer
off only when nothing is left to clean up. -/
theorem Follows.of_record (hv : VersionOk F j s v.lease) (hsame : SameLease v.lease l)
    (hw : l.status.workload = v.lease.status.workload)
    (hf : l.status.fencingToken = v.lease.status.fencingToken)
    (hfin : finalizerName ∈ l.finalizers ∨ ∀ w, v.lease.status.workload = some w →
      Settled j s v.lease w) : Follows F j s v l := by
  have hphase : l.phase = v.lease.phase := by rw [BerthLease.phase, BerthLease.phase, hw]
  have hpods : l.pods = v.lease.pods := by rw [BerthLease.pods, BerthLease.pods, hw]
  have htoken : l.token = v.lease.token := by rw [BerthLease.token, BerthLease.token, hw]
  have hholder : l.holder = v.lease.holder := by rw [BerthLease.holder, BerthLease.holder, hw]
  refine ⟨hsame, ⟨fun hn => ?_, fun hn ht => ?_, fun w hw' => ?_⟩, fun x hx => ?_, fun _ => ?_,
    fun hact => ?_, fun hstop htok => ?_, fun hidle => ?_, fun _ _ => ?_, fun _ hstop _ => ?_⟩
  · rw [hw]
    exact hv.bare (hsame.target ▸ hn)
  · rw [hf]
    exact hv.unset (hw ▸ hn) (hsame.target ▸ ht)
  · rw [hw] at hw'
    have hrec := hv.record w hw'
    refine ⟨hrec.idle, hrec.length, ?_, fun hne => ?_, fun hp => ?_, ?_, fun hno => ?_⟩
    · rw [hsame.ns, hsame.uid]
      exact hrec.pinned
    · exact (hrec.aimed hne).lease hsame.uid hsame.ns hsame.name hsame.target
    · rw [hsame.leaseName, hsame.holderFor, hsame.central]
      obtain ⟨_, hrest⟩ := hrec.active hp
      refine ⟨?_, hrest⟩
      rcases hfin with hfin | hfin
      · exact hfin
      · exact absurd hp (hfin w hw').calm
    · rw [hsame.leaseName, hsame.holderFor, hsame.central]
      exact hrec.stopping
    · have hset := (hfin.resolve_left hno) w hw'
      refine ⟨hset.calm, hset.dead, ?_⟩
      rw [hsame.central]
      exact hset.retired
  · rw [hpods]
    exact .inl hx
  · rw [hpods]
    exact List.Subset.refl _
  · rw [hphase] at hact
    rw [hact]
    exact ⟨by decide, .inl ⟨rfl, htoken.symm⟩⟩
  · rw [hphase] at hstop
    rw [hstop]
    exact ⟨by decide, htoken.symm, hholder.symm⟩
  · rw [← hphase, hidle]
    decide
  · rw [BerthLease.activation, BerthLease.activation, hw]
  · exact .inl ⟨hphase.trans hstop, htoken⟩

/-- A user's change. -/
theorem Follows.of_edit (hv : VersionOk F j s v.lease) (hsame : SameLease v.lease l)
    (hst : l.status = v.lease.status)
    (hfin : finalizerName ∈ v.lease.finalizers → finalizerName ∈ l.finalizers) :
    Follows F j s v l := by
  refine Follows.of_record hv hsame (by rw [hst]) (by rw [hst]) ?_
  by_cases h : finalizerName ∈ v.lease.finalizers
  · exact .inl (hfin h)
  · exact .inr fun w hw => (hv.record w hw).settled h

theorem VersionOk.stamped (h : VersionOk F j s l) (rv : Nat) : VersionOk F j s (l.stamped rv) where
  bare := h.bare
  unset := h.unset
  record := fun w hw => by
    have hrec := h.record w hw
    refine ⟨hrec.idle, hrec.length, hrec.pinned, fun hne => (hrec.aimed hne).lease rfl rfl rfl rfl,
      hrec.active, hrec.stopping, fun hfin => ?_⟩
    have hset := hrec.settled hfin
    exact ⟨hset.calm, hset.dead, hset.retired⟩

end Berth.Operator
