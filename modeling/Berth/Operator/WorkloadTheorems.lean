/-
Berth.Operator.WorkloadTheorems — what the operator knows after it has
stopped, drained, permitted or pruned.

A LIST of the Pods is one instant, and a registered Pod is a stored Pod of
the lease's namespace that carries the lease's UID. So a drain that sees
nothing alive has seen every registered Pod dead, and so has a prune that
drops one.
-/
import Berth.Operator.CommitTheorems

namespace Berth.Operator

open Berth.Interleave Berth.Lease

variable {ι : Type} {cfg : Server.Config} {F : Fleet ι} {i : Nat}
variable {t : Task ι} {s s' : Site ι cfg} {c c' : Cluster} {l : BerthLease} {v : Version}

/-! ## Gentle programs -/

theorem gentle_updateObject (o : Object) : Gentle (updateObject o) :=
  gentle_effect (o := .submit o) rfl fun id => gentle_effect (o := .awaitWrite id) rfl gentle_pure

theorem gentle_applyFencedAction (ns : String) (ref : Option TargetRef)
    (action : Option LeaseAction) (uid fence : String) :
    Gentle (applyFencedAction ns ref action uid fence) := by
  unfold applyFencedAction
  split
  · refine gentle_effect (o := .getObject _) rfl fun (r : Except ApiErr Object) => ?_
    cases r with
    | error e => cases e <;> exact gentle_pure _
    | ok o =>
      dsimp only
      split
      · exact gentle_pure _
      split
      · exact gentle_pure _
      split
      · exact gentle_pure _
      · refine (gentle_updateObject _).bind fun r => ?_
        cases r <;> exact gentle_pure _
  · exact gentle_pure _

theorem gentle_stopTarget (l : BerthLease) : Gentle (stopTarget l) := by
  unfold stopTarget
  split
  · exact gentle_pure _
  refine gentle_effect (o := .getObject _) rfl fun (r : Except ApiErr Object) => ?_
  cases r with
  | error e => exact gentle_pure _
  | ok o =>
    dsimp only
    split
    · exact gentle_pure _
    · exact gentle_applyFencedAction _ _ _ _ _

theorem gentle_verifyTarget (cfg : Config) (l : BerthLease) (τ : TargetRef) :
    Gentle (verifyTarget cfg l τ) := by
  unfold verifyTarget
  split
  · exact gentle_pure _
  split
  · exact gentle_pure _
  split
  · exact gentle_pure _
  split
  · exact gentle_pure _
  refine gentle_effect (o := .getObject _) rfl fun (r : Except ApiErr Object) => ?_
  cases r with
  | error e => exact gentle_pure _
  | ok o =>
    dsimp only
    split <;> exact gentle_pure _

theorem gentle_deleteUID (o : Object) : Gentle (deleteUID o) := by
  unfold deleteUID
  split
  · exact gentle_pure _
  · refine gentle_effect (o := .deleteObject o) rfl fun (r : Except ApiErr Unit) => ?_
    cases r <;> exact gentle_pure _

theorem gentle_drainPodsLoop (l : BerthLease) (ps : List Object) (done : Bool) :
    Gentle (drainPodsLoop l ps done) := by
  induction ps generalizing done with
  | nil => exact gentle_pure _
  | cons p ps ih =>
    unfold drainPodsLoop
    split
    · exact ih done
    split
    · refine (gentle_deleteUID p).bind fun r => ?_
      cases r with
      | some e => exact gentle_pure _
      | none => exact ih _
    · exact ih _

theorem gentle_suspendJob (job : Object) : Gentle (suspendJob job) := by
  unfold suspendJob
  split
  · exact gentle_pure _
  · exact (gentle_updateObject _).bind fun _ => gentle_pure _

theorem gentle_drainJobsLoop (jobs : List Object) : Gentle (drainJobsLoop jobs) := by
  induction jobs with
  | nil => exact gentle_pure _
  | cons job jobs ih =>
    unfold drainJobsLoop
    split
    · exact ih
    refine (gentle_suspendJob job).bind fun r => ?_
    cases r with
    | some e => exact gentle_pure _
    | none =>
      refine (gentle_deleteUID job).bind fun r => ?_
      cases r with
      | some e => exact gentle_pure _
      | none => exact ih

theorem gentle_drainJobs (l : BerthLease) : Gentle (drainJobs l) := by
  refine gentle_effect (o := .listObjects _ _ _ _) rfl fun (r : Except ApiErr (List Object)) => ?_
  cases r with
  | error e => exact gentle_pure _
  | ok jobs =>
    refine (gentle_drainJobsLoop jobs).bind fun r => ?_
    cases r <;> exact gentle_pure _

theorem gentle_ungatePod (l : BerthLease) (p : Object) : Gentle (ungatePod l p) := by
  unfold ungatePod
  split
  · exact gentle_pure _
  · refine (gentle_updateObject _).bind fun r => ?_
    cases r <;> exact gentle_pure _

/-! ## Draining -/

/-- The loop ends well only if everything that counts has terminated. -/
theorem drainPodsLoop_done {ps : List Object} {done : Bool} {evs : List (Event ClusterSig)}
    (h : (drainPodsLoop l ps done).Ran evs (.ok true)) :
    done = true ∧ ∀ p ∈ ps, accountsFor l p = true → p.terminal = true := by
  induction ps generalizing done evs with
  | nil =>
    cases h
    exact ⟨rfl, fun _ hp => (nomatch hp)⟩
  | cons p ps ih =>
    unfold drainPodsLoop at h
    split at h
    · next hno =>
      obtain ⟨hdone, hrest⟩ := ih h
      refine ⟨hdone, fun q hq hacc => ?_⟩
      rcases List.mem_cons.mp hq with rfl | hq
      · rw [hacc] at hno
        cases hno
      · exact hrest q hq hacc
    · -- the Pod counts, and the rest of the loop is told whether it is done
      have key : ∃ evs', (drainPodsLoop l ps (done && p.terminal)).Ran evs' (.ok true) := by
        split at h
        · obtain ⟨_, evs₂, r, _, _, hk⟩ := Prog.Ran.of_bind h
          cases r with
          | some e => cases hk
          | none => exact ⟨evs₂, hk⟩
        · exact ⟨evs, h⟩
      obtain ⟨evs', hk⟩ := key
      obtain ⟨hdone, hrest⟩ := ih hk
      rw [Bool.and_eq_true] at hdone
      refine ⟨hdone.1, fun q hq hacc => ?_⟩
      rcases List.mem_cons.mp hq with rfl | hq
      · exact hdone.2
      · exact hrest q hq hacc

/-- A registered Pod that a LIST shows as terminated or not at all. -/
theorem Pinned.dead {ns lease uid : String} {os : List Object} (h : Pinned c ns lease uid)
    (hlist : ∀ o, o ∈ os ↔ (∃ q ∈ c.objects, q.object = o) ∧
      Cluster.selects "v1" "Pod" ns none o = true)
    (hterm : ∀ o ∈ os, o.uid = uid → o.annotation managedUID = lease → o.terminal = true) :
    Dead c uid := by
  refine ⟨h.used, fun q hq huid => ?_⟩
  obtain ⟨hver, hkind, hns, hann⟩ := h.stored q hq huid
  exact hterm q.object ((hlist _).mpr ⟨⟨q, hq, rfl⟩, by simp [Cluster.selects, hver, hkind, hns]⟩)
    huid hann

variable [DecidableEq ι]

/-- After a drain every registered Pod is dead. -/
theorem robust_drainPods
    (hpin : ∀ x ∈ l.pods, Pinned (s.clusters t.cluster) l.ns l.uid x.uid) :
    Robust (discipline F cfg) i (drainPods l) (fun r t' s' => t' = t ∧ Keeps F i t s s' ∧
      (r = .ok true → ∀ x ∈ l.pods, Dead (s'.clusters t.cluster) x.uid)) t s := by
  refine robust_listObjects fun r s₁ _ hk₁ hlist => ?_
  cases r with
  | error e => exact fun s' hi _ => ⟨rfl, hk₁.trans hi.toKeeps, fun heq => (nomatch heq)⟩
  | ok os =>
    refine (robust_logged Logged.nil (robust_gentle (gentle_drainPodsLoop l os true)
      (Q := fun _ t' s' => t' = t ∧ Keeps F i t s₁ s')
      fun _ s' hk _ => ⟨rfl, hk⟩)).mono ?_
    rintro r t' s' _ ⟨⟨rfl, hk₂⟩, evs, hran, _⟩
    refine ⟨rfl, hk₁.trans hk₂, fun heq x hx => ?_⟩
    subst heq
    obtain ⟨s₀, h₀, _, hall, h₁⟩ := hlist os rfl
    refine (((hpin x hx).evolves h₀.evolves).dead hall fun o ho huid hann => ?_).evolves
      (h₁.trans hk₂).evolves
    exact (drainPodsLoop_done hran).2 o ho (by simp [accountsFor, hann])

/-- A prune drops only registrations of dead Pods. -/
theorem robust_pruneCompleted {ns lease : String} {w : WorkloadStatus}
    (hpin : ∀ x ∈ w.pods, Pinned (s.clusters t.cluster) ns lease x.uid) :
    Robust (discipline F cfg) i (pruneCompleted ns w) (fun r t' s' => t' = t ∧ Keeps F i t s s' ∧
      ∀ w', r = .ok w' → ∃ ps, w' = { w with pods := ps } ∧ ps.Sublist w.pods ∧
        ∀ x ∈ w.pods, x ∉ ps → Dead (s'.clusters t.cluster) x.uid) t s := by
  unfold pruneCompleted
  split
  · refine fun s' hi _ => ⟨rfl, hi.toKeeps, fun w' heq => ?_⟩
    cases heq
    exact ⟨w.pods, rfl, List.Sublist.refl _, fun x hx hn => absurd hx hn⟩
  · refine robust_listObjects fun r s₁ _ hk₁ hlist => ?_
    cases r with
    | error e => exact fun s' hi _ => ⟨rfl, hk₁.trans hi.toKeeps, fun _ heq => (nomatch heq)⟩
    | ok os =>
      refine fun s' hi _ => ⟨rfl, hk₁.trans hi.toKeeps, fun w' heq => ?_⟩
      cases heq
      refine ⟨_, rfl, List.filter_sublist, fun x hx hn => ?_⟩
      obtain ⟨s₀, h₀, _, hall, h₁⟩ := hlist os rfl
      refine (((hpin x hx).evolves h₀.evolves).dead hall fun o ho huid _ => ?_).evolves
        (h₁.trans hi.toKeeps).evolves
      by_contra hlive
      refine hn (List.mem_filter.mpr ⟨hx, List.any_eq_true.mpr ⟨o, ho, ?_⟩⟩)
      simp [huid, Bool.eq_false_iff.mpr hlive]

/-! ## Permits -/

/-- `p` was seen as a Pod of namespace `ns`. -/
structure Observed (c : Cluster) (ns : String) (p : Object) : Prop where
  used : p.uid ∈ c.uids
  stored : ∀ o ∈ c.objects, o.object.uid = p.uid → o.object.apiVersion = "v1" ∧
    o.object.kind = "Pod" ∧ o.object.ns = ns ∧ (p.annotation managedUID ≠ "" →
      o.object.annotation managedUID = p.annotation managedUID)

omit [DecidableEq ι] in
theorem Observed.evolves {ns : String} {p : Object} (h : Observed c ns p) (he : Evolves c c') :
    Observed c' ns p := by
  refine ⟨he.uids h.used, fun o' ho' hu => ?_⟩
  obtain ⟨o, ho, hd⟩ := he.objects o' ho' (hu ▸ h.used)
  obtain ⟨hver, hkind, hns, hann⟩ := h.stored o ho (hd.uid.symm.trans hu)
  have hkey := ObjectKey.mk.inj hd.key
  refine ⟨hkey.1.trans hver, hkey.2.1.trans hkind, hkey.2.2.1.trans hns, fun hne => ?_⟩
  have hsame := hann hne
  rw [← hsame] at hne ⊢
  exact (hd.bound hne).1

omit [DecidableEq ι] in
theorem Observed.of_stored {q : Stored} (hwf : Wf c) (hq : q ∈ c.objects)
    (hver : q.object.apiVersion = "v1") (hkind : q.object.kind = "Pod") :
    Observed c q.object.ns q.object := by
  refine ⟨hwf.object_uid q hq, fun o ho hu => ?_⟩
  rw [hwf.object_inj o ho q hq hu]
  exact ⟨hver, hkind, rfl, fun _ => rfl⟩

omit [DecidableEq ι] in
theorem Observed.pinned {ns lease : String} {p : Object} (h : Observed c ns p)
    (hann : p.annotation managedUID = lease) (hne : lease ≠ "") : Pinned c ns lease p.uid := by
  refine ⟨h.used, hne, fun o ho hu => ?_⟩
  obtain ⟨hver, hkind, hns, hsame⟩ := h.stored o ho hu
  exact ⟨hver, hkind, hns, (hsame (by rw [hann]; exact hne)).trans hann⟩

/-- What a permit leaves behind: the lease as it is stored now. -/
def Permits (t : Task ι) (l : BerthLease) (s : Site ι cfg) (r : Except Err BerthLease)
    (t' : Task ι) (s' : Site ι cfg) : Prop :=
  t' = t ∧ Carries s s' ∧ ∀ l', r = .ok l' → l'.ns = l.ns ∧
    ∃ n, ⟨l', n⟩ ∈ (s'.clusters t.cluster).versions

theorem robust_ungatePod {p : Object} (hl : ∃ n, ⟨l, n⟩ ∈ (s.clusters t.cluster).versions) :
    Robust (discipline F cfg) i (ungatePod l p) (Permits t l s) t s := by
  obtain ⟨n, hn⟩ := hl
  refine (robust_logged Logged.nil (robust_gentle (gentle_ungatePod l p)
    (Q := fun _ t' s' => t' = t ∧ Keeps F i t s s') fun _ s' hk _ => ⟨rfl, hk⟩)).mono ?_
  rintro r t' s' _ ⟨⟨rfl, hk⟩, evs, hran, _⟩
  refine ⟨rfl, hk.carries, fun l' heq => ?_⟩
  subst heq
  -- the lease goes through
  have hsame : l' = l := by
    unfold ungatePod at hran
    split at hran
    · cases hran
      rfl
    · obtain ⟨_, _, r, _, _, hk⟩ := Prog.Ran.of_bind hran
      cases r <;> cases hk
      rfl
  rw [hsame]
  exact ⟨rfl, n, hk.evolves.versions.subset hn⟩

theorem robust_registerPod {p : Object} {w : WorkloadStatus} {n : Nat} (hok : s.Ok F)
    (hl : ⟨l, n⟩ ∈ (s.clusters t.cluster).versions) (hw : l.status.workload = some w)
    (hact : w.phase = .active) (hp : Observed (s.clusters t.cluster) l.ns p)
    (hann : p.annotation managedUID = l.uid) :
    Robust (discipline F cfg) i (registerPod l w p) (Permits t l s) t s := by
  have hcluster := hok.clusters t.cluster
  unfold registerPod
  split
  · exact robust_ungatePod ⟨n, hl⟩
  split
  · exact fun s' hi _ => ⟨rfl, hi.carries, fun _ heq => (nomatch heq)⟩
  split
  · exact fun s' hi _ => ⟨rfl, hi.carries, fun _ heq => (nomatch heq)⟩
  rename_i hlen
  have hactive : l.phase = .active := (phase_some hw).trans hact
  have hfin : l.finalizers ≠ [] := by
    intro hnil
    have := (((hcluster.version _ hl).record w hw).active hact).1
    rw [hnil] at this
    cases this
  refine robust_updateStatus (v := ⟨l, n⟩) hl rfl rfl
    (.register hw hact (Nat.lt_of_not_le hlen)
      (hp.pinned hann (hcluster.wf.known _ hl).1) rfl)
    (fun _ => .inl hactive) (fun hd => ?_) fun r s₁ hok₁ hc₁ hr => ?_
  · rcases hd.2 with hidle | ⟨hin, hout⟩
    · rw [withStatus_phase] at hidle
      rw [phase_some (w := { w with pods := w.pods ++ [⟨p.name, p.uid⟩] }) rfl] at hidle
      exact absurd (hact.symm.trans hidle) (nomatch ·)
    · exact absurd hin hout
  · cases r with
    | error e => exact fun s' hi _ => ⟨rfl, hc₁.trans hi.carries, fun _ heq => (nomatch heq)⟩
    | ok l' =>
      obtain ⟨rv, m, rfl, _, hread⟩ := hr l' rfl hfin
      refine (robust_ungatePod ⟨m, hread.mem⟩).mono ?_
      rintro r' t' s' _ ⟨rfl, hc₂, hrest⟩
      exact ⟨rfl, hc₁.trans hc₂, hrest⟩

theorem robust_permitPod {p : Object} {n : Nat} (hl : ⟨l, n⟩ ∈ (s.clusters t.cluster).versions)
    (hp : Observed (s.clusters t.cluster) l.ns p) :
    Robust (discipline F cfg) i (permitPod l p) (Permits t l s) t s := by
  refine robust_now fun τ s₁ hok₁ hk₁ => ?_
  have hl₁ := hk₁.evolves.versions.subset hl
  have hsame : ∀ s', Interf F i t s₁ s' → Permits t l s (.ok l) t s' := fun s' hi =>
    ⟨rfl, hk₁.carries.trans hi.carries, fun l' heq => by
      cases heq
      exact ⟨rfl, n, hi.evolves.versions.subset hl₁⟩⟩
  have hfail : ∀ e s', Carries s₁ s' → Permits t l s (.error e) t s' := fun e s' hc =>
    ⟨rfl, hk₁.carries.trans hc, fun _ heq => (nomatch heq)⟩
  cases hact : activeAt l τ with
  | false => exact fun s' hi _ => hsame s' hi
  | true =>
    cases hw : l.status.workload with
    | none => exact fun s' hi _ => hsame s' hi
    | some w =>
      dsimp only
      split
      · exact fun s' hi _ => hsame s' hi
      split
      · exact fun s' hi _ => hfail _ s' hi.carries
      rename_i hbind
      refine Robust.bind (robust_gentle (gentle_resolveBinding 5 p) fun r s₂ hk₂ hok₂ => ?_)
      cases r with
      | error e => exact fun s' hi _ => hfail e s' (hk₂.carries.trans hi.carries)
      | ok root =>
        dsimp only
        split
        · exact fun s' hi _ => hfail _ s' (hk₂.carries.trans hi.carries)
        simp only [not_or, not_not] at hbind
        refine (robust_registerPod hok₂ (hk₂.evolves.versions.subset hl₁) hw
          ((phase_some hw).symm.trans (activeAt_phase hact))
          (hp.evolves (hk₁.trans hk₂).evolves) hbind.1).mono ?_
        rintro r' t' s' _ ⟨rfl, hc, hrest⟩
        exact ⟨rfl, (hk₁.trans hk₂).carries.trans hc, hrest⟩

theorem robust_permitPodsLoop {ps : List Object} {n : Nat}
    (hl : ⟨l, n⟩ ∈ (s.clusters t.cluster).versions)
    (hps : ∀ p ∈ ps, Observed (s.clusters t.cluster) l.ns p) :
    Robust (discipline F cfg) i (permitPodsLoop l ps) (fun _ t' _ => t' = t) t s := by
  induction ps generalizing l n s with
  | nil => exact fun _ _ _ => rfl
  | cons p ps ih =>
    refine Robust.bind ((robust_permitPod hl (hps p List.mem_cons_self)).mono ?_)
    rintro r t' s₁ _ ⟨rfl, hc, hr⟩
    cases r with
    | error e => exact fun _ _ _ => rfl
    | ok l' =>
      obtain ⟨hns, m, hm⟩ := hr l' rfl
      refine ih hm fun q hq => ?_
      rw [hns]
      exact (hps q (List.mem_cons_of_mem _ hq)).evolves (hc.clusters _)

theorem robust_permitPods {n : Nat} (hl : ⟨l, n⟩ ∈ (s.clusters t.cluster).versions) :
    Robust (discipline F cfg) i (permitPods l) (fun _ t' _ => t' = t) t s := by
  refine robust_listObjects fun r s₁ _ hk₁ hlist => ?_
  cases r with
  | error e => exact fun _ _ _ => rfl
  | ok ps =>
    refine robust_permitPodsLoop (hk₁.evolves.versions.subset hl) fun p hp => ?_
    obtain ⟨s₀, _, hok₀, hall, h₁⟩ := hlist ps rfl
    obtain ⟨⟨q, hq, rfl⟩, hsel⟩ := (hall p).mp hp
    simp only [Cluster.selects, Bool.and_eq_true, beq_iff_eq] at hsel
    have hobs := Observed.of_stored (hok₀.clusters t.cluster).wf hq hsel.1.1.1 hsel.1.1.2
    rw [hsel.1.2] at hobs
    exact hobs.evolves h₁.evolves

end Berth.Operator
