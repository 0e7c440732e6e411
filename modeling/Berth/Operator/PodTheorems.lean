/-
Berth.Operator.PodTheorems — no managed Pod runs unaccounted for.

Two results about every run of the operators. Registration covers
execution: whatever is ungated and alive is in its lease's list. And a
lease is released only when nothing of it runs, and nothing of it starts
before it is active again.

`fenced` marks the leases whose release was called; `fenced_of_release`,
`fenced_of_unfinalized` and `retains_step` say that it does.
-/
import Berth.Operator.ReconcilerTheorems

namespace Berth.Operator

open Berth.Interleave Berth.Lease Berth.Api Berth.Client

variable {ι : Type} {cfg : Server.Config} {F : Fleet ι} {j : ι} {i : Nat}
variable {t : Task ι} {s s' : Site ι cfg} {c c' : Cluster} {l m : BerthLease}

/-! ## The mark of a release -/

/-- A mark stays until its lease is stored active. -/
def Retains (c c' : Cluster) : Prop :=
  ∀ u ∈ c.fenced, u ∈ c'.fenced ∨ ∃ l ∈ c'.leases, l.uid = u ∧ l.phase = .active

theorem Retains.of_eq (h : c'.fenced = c.fenced) : Retains c c' :=
  fun u hu => .inl (by rw [h]; exact hu)

theorem Retains.of_subset {c₁ : Cluster} (hsub : c.fenced ⊆ c₁.fenced) (h : Retains c₁ c') :
    Retains c c' := fun u hu => h u (hsub hu)

theorem retains_putLease (c : Cluster) (n : Nat) (l : BerthLease) : Retains c (c.putLease n l) := by
  intro u hu
  by_cases hact : l.phase = .active
  · by_cases huid : u = l.uid
    · exact .inr ⟨_, mem_putLease.mpr (.inl rfl), huid.symm, hact⟩
    · refine .inl ?_
      have hfenced : (c.putLease n l).fenced = c.fenced.filter (· ≠ l.uid) := if_pos hact
      rw [hfenced]
      exact List.mem_filter.mpr ⟨hu, by simpa using huid⟩
  · refine .inl ?_
    have hfenced : (c.putLease n l).fenced = c.fenced := if_neg hact
    rw [hfenced]
    exact hu

theorem retains_replaceLease (c : Cluster) (n : Nat) (cur l : BerthLease) :
    Retains c (c.replaceLease n cur l).2 := by
  unfold Cluster.replaceLease
  split
  · exact Retains.of_eq rfl
  · split
    · exact Retains.of_eq rfl
    · exact retains_putLease c n l

theorem retains_applyWrite (c : Cluster) (n : Nat) (w : LeaseWrite) :
    Retains c (c.applyWrite n w).2 := by
  unfold Cluster.applyWrite
  split
  · exact Retains.of_eq rfl
  dsimp only
  split
  · exact Retains.of_eq rfl
  · exact retains_replaceLease c n _ _

theorem retains_execWrite {ch : Choice} {n : Nat} {w : LeaseWrite} {r : Except ApiErr BerthLease}
    (h : execWrite ch n w c = some (r, c')) : Retains c c' := by
  cases ch with
  | ok =>
    have h : c.applyWrite n w = (r, c') := Option.some.inj h
    have := retains_applyWrite c n w
    rwa [h] at this
  | fail e =>
    cases h
    exact Retains.of_eq rfl
  | lost e =>
    cases h
    exact retains_applyWrite c n w
  | late e =>
    cases h
    exact Retains.of_eq rfl
  | _ => cases h

theorem fenced_execDelete {ch : Choice} {clock : Time} {o : Object} {r : Except ApiErr Unit}
    (h : execDelete ch clock o c = some (r, c')) : c'.fenced = c.fenced := by
  unfold execDelete at h
  repeat' split at h
  all_goals
    cases h
    try rfl

theorem fenced_fetch (c : Cluster) (id : Nat) (p : Pending) :
    (c.fetch id p).2.fenced = c.fenced := by
  unfold Cluster.fetch
  repeat' split
  all_goals rfl

theorem fenced_commit {id : Nat} {p : Pending} {review : Review} {verdict : Verdict}
    (h : c.commit id p review verdict = some c') : c'.fenced = c.fenced := by
  unfold Cluster.commit Cluster.commitObject at h
  repeat' split at h
  all_goals
    cases h
    try rfl
  unfold Cluster.commitBinding
  repeat' split
  all_goals rfl

theorem retains_execLocal {honest : Bool} {conf : Config} {ch : Choice} {clock : Time} {n : Nat}
    {o : ClusterOp} {w : Work} {r : o.Res} (h : execLocal honest conf ch clock n o w c = some (r, c')) :
    Retains c c' := by
  cases o with
  | updateStatus l => exact retains_execWrite h
  | updateLease l =>
    refine Retains.of_subset (fun u hu => ?_) (retains_execWrite h)
    split
    · exact hu
    unfold Cluster.fence
    split
    · exact List.mem_cons_of_mem _ hu
    · exact hu
  | deleteObject o => exact Retains.of_eq (fenced_execDelete h)
  | fetch id =>
    obtain ⟨p, _, heq⟩ := Option.map_eq_some_iff.mp h
    have hf := fenced_fetch c id p
    rw [heq] at hf
    exact Retains.of_eq hf
  | commit id review verdict =>
    simp only [execLocal] at h
    split at h
    · cases h
    obtain ⟨p, _, h⟩ := Option.bind_eq_some_iff.mp h
    obtain ⟨c'', hcommit, heq⟩ := Option.map_eq_some_iff.mp h
    cases heq
    exact Retains.of_eq (fenced_commit hcommit)
  | submit o =>
    cases h
    exact Retains.of_eq rfl
  | awaitWrite id =>
    refine Retains.of_eq ?_
    simp only [execLocal] at h
    split at h
    · obtain ⟨a, _, heq⟩ := Option.map_eq_some_iff.mp h
      cases heq
      rfl
    · cases h
      rfl
    · cases h
  | _ =>
    refine Retains.of_eq ?_
    simp only [execLocal] at h
    repeat' split at h
    all_goals
      cases h
      try rfl

theorem retains_localStep {mayCreate : BerthLease → Bool} {clock : Time} {n : Nat} {e : LocalEnv}
    (h : localStep mayCreate clock n c e = some c') : Retains c c' := by
  have hchange : ∀ {key f}, c.changeLease n key f = some c' → Retains c c' := by
    intro key f h
    obtain ⟨cur, _, h⟩ := Option.bind_eq_some_iff.mp h
    obtain ⟨l, _, rfl⟩ := Option.map_eq_some_iff.mp h
    exact retains_replaceLease c n cur l
  have hobject : ∀ {key f}, c.changeObject key f = some c' → Retains c c' := by
    intro key f h
    obtain ⟨cur, _, h⟩ := Option.bind_eq_some_iff.mp h
    obtain ⟨o, _, rfl⟩ := Option.map_eq_some_iff.mp h
    exact Retains.of_eq rfl
  cases e with
  | land w =>
    simp only [localStep] at h
    split at h
    · cases h
      exact retains_applyWrite c n w
    · cases h
  | createLease l =>
    simp only [localStep] at h
    split at h
    · cases h
      exact retains_putLease _ n _
    · cases h
  | editLease key spec => exact hchange h
  | setFinalizers key finalizers => exact hchange h
  | deleteLease key => exact hchange h
  | request w user dryRun =>
    refine Retains.of_eq ?_
    simp only [localStep, Cluster.receive] at h
    repeat' split at h
    all_goals
      cases h
      try rfl
  | podPhase key phase =>
    simp only [localStep] at h
    exact hobject h
  | markDeleted key =>
    simp only [localStep] at h
    exact hobject h
  | removeObject key =>
    cases h
    exact Retains.of_eq rfl
  | restart =>
    cases h
    exact Retains.of_eq rfl

variable [DecidableEq ι]

/-- An effect changes its thread's cluster only. -/
theorem execLive_becomes {ch : Choice} {o : ClusterOp} {r : o.Res}
    (h : execLive F ch o t s = some (r, s')) :
    (∀ k, k ≠ t.cluster → s'.clusters k = s.clusters k) ∧
      Retains (s.clusters t.cluster) (s'.clusters t.cluster) := by
  by_cases ho : o.inCluster = true
  · obtain ⟨c', hx, rfl⟩ := execLive_local ho h
    have hb := Becomes.set s t.cluster c'
    exact ⟨hb.others, by rw [hb.here]; exact retains_execLocal hx⟩
  · cases o with
    | post l key endpoint =>
      cases h
      have hb := Becomes.set s t.cluster (if isRelease endpoint then (s.clusters t.cluster).fence l
        else s.clusters t.cluster)
      refine ⟨hb.others, fun u hu => .inl ?_⟩
      show u ∈ ((s.set t.cluster _).clusters t.cluster).fenced
      rw [hb.here]
      unfold Cluster.fence
      split
      · split
        · exact List.mem_cons_of_mem _ hu
        · exact hu
      · exact hu
    | await id budget =>
      have hsame : s' = s := by
        simp only [execLive] at h
        split at h
        · obtain ⟨resp, _, heq⟩ := Option.map_eq_some_iff.mp h
          cases heq
          rfl
        · split at h <;> cases h
          rfl
        · cases h
      rw [hsame]
      exact ⟨fun _ _ => rfl, Retains.of_eq rfl⟩
    | _ => exact absurd rfl ho

theorem note_fenced (s : Site ι cfg) (k : ι) (e : Event ClusterSig) :
    ((s.note j i e).clusters k).fenced = (s.clusters k).fenced := by
  by_cases hk : k = j
  · rw [hk, (note_becomes s j i e).here]
    rfl
  · rw [(note_becomes s j i e).others k hk]

/-- In every step of the operators. -/
theorem retains_step {p q : Pool (machine F cfg)} (hs : p.Step q) (j : ι) :
    Retains (p.shared.clusters j) (q.shared.clusters j) := by
  obtain ⟨t, t', s, hst, rfl⟩ | ⟨i, ch, u, o, k, r, t', s, _, _, hex, rfl⟩ | ⟨e, s, he, rfl⟩ :=
    Pool.step_cases hs
  · obtain ⟨_, rfl | ⟨k, _, rfl⟩⟩ := enter_cases hst
    · exact Retains.of_eq rfl
    · have hb := Becomes.set p.shared t.cluster
        { p.shared.clusters t.cluster with
          running := Function.update (p.shared.clusters t.cluster).running k
            (some p.threads.length) }
      by_cases hj : j = t.cluster
      · rw [hj, hb.here]
        exact Retains.of_eq rfl
      · exact Retains.of_eq (by rw [hb.others j hj])
  · obtain ⟨_, _, s₁, hlive, rfl⟩ := exec_cases hex
    obtain ⟨hothers, hret⟩ := execLive_becomes hlive
    have hnote : ∀ {c}, Retains c (s₁.clusters j) →
        Retains c ((s₁.note u.loc.cluster i ⟨o, r⟩).clusters j) := by
      intro c h x hx
      rw [note_fenced, (note_fields s₁ u.loc.cluster j i _).2.2.2]
      exact h x hx
    by_cases hj : j = u.loc.cluster
    · refine hnote ?_
      rw [hj]
      exact hret
    · exact hnote (Retains.of_eq (by rw [hothers j hj]))
  · cases e with
    | cluster k e =>
      obtain ⟨c', hstep, rfl⟩ := Option.map_eq_some_iff.mp he
      have hb := Becomes.set p.shared k c'
      by_cases hj : j = k
      · rw [hj, hb.here]
        exact retains_localStep hstep
      · exact Retains.of_eq (by rw [hb.others j hj])
    | call call =>
      simp only [machine, envStep] at he
      split at he
      · obtain ⟨_, _, rfl⟩ := Option.map_eq_some_iff.mp he
        exact Retains.of_eq rfl
      · cases he
    | serve n ch =>
      obtain ⟨_, _, rfl⟩ := Option.map_eq_some_iff.mp he
      exact Retains.of_eq rfl
    | tick τ =>
      obtain ⟨_, _, rfl⟩ := Option.map_eq_some_iff.mp he
      exact Retains.of_eq rfl

/-- In this step thread `i` of cluster `j` performs an operation and gets
an answer. -/
def Performs (p q : Pool (machine F cfg)) (j : ι) (i : Nat) (e : Event ClusterSig) : Prop :=
  p.Step q ∧ (q.shared.clusters j).journal = (i, e) :: (p.shared.clusters j).journal

theorem Performs.exec {p q : Pool (machine F cfg)} {e : Event ClusterSig}
    (hok : Site.Ok F p.shared) (h : Performs p q j i e) :
    ∃ ch t s₁, t.cluster = j ∧ execLive F ch e.1 t p.shared = some (e.2, s₁) ∧
      q.shared = s₁.note j i e := by
  obtain ⟨hs, hj⟩ := h
  -- a longer journal has an entry of a thread
  have hne : (q.shared.clusters j).journal ≠ (p.shared.clusters j).journal := by
    rw [hj]
    exact fun heq => absurd (congrArg List.length heq) (by simp)
  obtain ⟨t, t', s, hst, rfl⟩ | ⟨n, ch, u, o, k, r, t', s, _, _, hex, rfl⟩ | ⟨e', s, he, rfl⟩ :=
    Pool.step_cases hs
  · refine absurd ?_ hne
    obtain ⟨_, rfl | ⟨k, _, rfl⟩⟩ := enter_cases hst
    · rfl
    have hb := Becomes.set p.shared t.cluster
      { p.shared.clusters t.cluster with
        running := Function.update (p.shared.clusters t.cluster).running k
          (some p.threads.length) }
    by_cases hk : j = t.cluster
    · rw [hk, hb.here]
    · rw [hb.others j hk]
  · obtain ⟨_, _, s₁, hlive, rfl⟩ := exec_cases hex
    have hb := note_becomes s₁ u.loc.cluster n ⟨o, r⟩
    by_cases hk : j = u.loc.cluster
    · subst hk
      rw [hb.here] at hj
      have hj : (n, ⟨o, r⟩) :: (s₁.clusters u.loc.cluster).journal = _ := hj
      rw [execLive_journal hok hlive] at hj
      cases hj
      exact ⟨ch, u.loc, s₁, rfl, hlive, rfl⟩
    · refine absurd ?_ hne
      rw [hb.others j hk, (execLive_becomes hlive).1 j hk]
  · exact absurd ((env_ok hok he).calm.journal j) hne

/-- A call of Release marks its lease. -/
theorem fenced_of_release {p q : Pool (machine F cfg)} {key : Key} {endpoint : Endpoint} {n : Nat}
    (hok : Site.Ok F p.shared) (h : Performs p q j i ⟨.post l key endpoint, n⟩)
    (hrel : isRelease endpoint = true) (htarget : l.spec.target.isSome = true) :
    l.uid ∈ (q.shared.clusters j).fenced := by
  obtain ⟨ch, t, s₁, rfl, hlive, hq⟩ := h.exec hok
  cases hlive
  rw [hq, note_fenced]
  show l.uid ∈ ((p.shared.set t.cluster _).clusters t.cluster).fenced
  rw [(Becomes.set p.shared t.cluster _).here, if_pos hrel, Cluster.fence, if_pos htarget]
  exact List.mem_cons_self

/-- A write of finalizers takes no mark off, unless it stores an active
lease. -/
theorem fenced_whole {ch : Choice} {n : Nat} {r : Except ApiErr BerthLease} {u : String}
    (h : execWrite ch n (.whole l) c = some (r, c')) (hu : u ∈ c.fenced) :
    u ∈ c'.fenced ∨ ∃ m ∈ c'.leases, m.phase = .active ∧ m.finalizers = l.finalizers := by
  have happly : ∀ c', c' = (c.applyWrite n (.whole l)).2 → u ∈ c'.fenced ∨
      ∃ m ∈ c'.leases, m.phase = .active ∧ m.finalizers = l.finalizers := by
    rintro _ rfl
    unfold Cluster.applyWrite
    split
    · exact .inl hu
    rename_i cur _
    dsimp only
    split
    · exact .inl hu
    unfold Cluster.replaceLease
    split
    · exact .inl hu
    split
    · exact .inl hu
    by_cases hact : (LeaseWrite.over cur (.whole l)).phase = .active
    · exact .inr ⟨_, mem_putLease.mpr (.inl rfl), hact, rfl⟩
    · have hfenced : (c.putLease n (LeaseWrite.over cur (.whole l))).fenced = c.fenced :=
        if_neg hact
      exact .inl (by rw [hfenced]; exact hu)
  cases ch with
  | ok =>
    refine happly _ ?_
    rw [Option.some.inj h]
  | lost e =>
    cases h
    exact happly _ rfl
  | fail e =>
    cases h
    exact .inl hu
  | late e =>
    cases h
    exact .inl hu
  | _ => cases h

/-- A write that takes the finalizer off marks its lease. -/
theorem fenced_of_unfinalized {p q : Pool (machine F cfg)} {r : Except ApiErr BerthLease}
    (hok : Site.Ok F p.shared) (hok' : Site.Ok F q.shared)
    (h : Performs p q j i ⟨.updateLease l, r⟩) (hfin : finalizerName ∉ l.finalizers)
    (htarget : l.spec.target.isSome = true) : l.uid ∈ (q.shared.clusters j).fenced := by
  obtain ⟨ch, t, s₁, rfl, hlive, hq⟩ := h.exec hok
  obtain ⟨c', hx, rfl⟩ := execLive_local rfl hlive
  have hcluster := hok'.clusters t.cluster
  have hb := Becomes.set p.shared t.cluster c'
  simp only [execLocal, if_neg hfin] at hx
  have hu : l.uid ∈ ((p.shared.clusters t.cluster).fence l).fenced := by
    rw [Cluster.fence, if_pos htarget]
    exact List.mem_cons_self
  have hleases : (q.shared.clusters t.cluster).leases = c'.leases := by
    rw [hq, (note_fields _ t.cluster t.cluster i _).2.2.2, hb.here]
  rcases fenced_whole hx hu with hu | ⟨m, hm, hact, hmfin⟩
  · rw [hq, note_fenced, hb.here]
    exact hu
  -- an active lease has its finalizer
  obtain ⟨n, hn⟩ := hcluster.wf.current m (by rw [hleases]; exact hm)
  obtain ⟨w, hw⟩ := workload_of_phase (by rw [hact]; decide)
  have := (((hcluster.version _ hn).record w hw).active ((phase_some hw).symm.trans hact)).1
  have hmem : finalizerName ∈ m.finalizers := this
  rw [hmfin] at hmem
  exact absurd hmem hfin

/-! ## Pods -/

omit [DecidableEq ι] in
/-- An ungated Pod that is alive is in the list of its lease. -/
theorem ClusterOk.registered (h : ClusterOk F j s) {o : Stored} (ho : o ∈ (s.clusters j).objects)
    (hpod : o.object.isPod = true) (hadm : o.admitted ≠ "") (hgate : o.object.pod.gateOn = false)
    (hlive : o.object.terminal = false) :
    ∃ l ∈ (s.clusters j).leases, l.uid = o.admitted ∧ ⟨o.object.name, o.object.uid⟩ ∈ l.pods := by
  obtain ⟨v, hv, huid, hmem⟩ := h.ungated o ho hpod hadm hgate
  rcases h.listed v hv _ hmem with hdead | ⟨l, hl, hluid, hlmem⟩
  · have := hdead.2 o ho rfl
    rw [hlive] at this
    cases this
  · exact ⟨l, hl, hluid.trans huid, hlmem⟩

omit [DecidableEq ι] in
theorem ClusterOk.pods_length (h : ClusterOk F j s) (hl : l ∈ (s.clusters j).leases) :
    l.pods.length ≤ maxPermittedPods := by
  obtain ⟨n, hn⟩ := h.wf.current l hl
  cases hw : l.status.workload with
  | none =>
    rw [pods_none hw]
    exact Nat.zero_le _
  | some w =>
    rw [pods_some hw]
    exact ((h.version _ hn).record w hw).length

/-- Registration covers execution. In every run of the operators, at every
instant: an ungated Pod that was admitted under a lease and has not
terminated is in that lease's list, every gate removal was checked against
a state of the lease that was active at the time of the check and lists
the Pod, and no list has more than 1024 entries. -/
theorem registration_covers_execution {τ : Time} {p : Pool (machine F cfg)}
    (h : (fresh F cfg τ).Reaches p) (j : ι) :
    (∀ o ∈ (p.shared.clusters j).objects, o.object.isPod = true → o.admitted ≠ "" →
      o.object.pod.gateOn = false → o.object.terminal = false →
      ∃ l ∈ (p.shared.clusters j).leases, l.uid = o.admitted ∧
        ⟨o.object.name, o.object.uid⟩ ∈ l.pods) ∧
    (∀ u ∈ (p.shared.clusters j).ungatings, ∃ l t n, u.permit = some (l, t) ∧
      ⟨l, n⟩ ∈ (p.shared.clusters j).versions ∧ l.uid = u.binding ∧ activeAt l t = true ∧
      u.pod ∈ l.pods) ∧
    ∀ l ∈ (p.shared.clusters j).leases, l.pods.length ≤ 1024 := by
  have hok := (site_ok h).clusters j
  exact ⟨fun o ho hpod hadm hgate hlive => hok.registered ho hpod hadm hgate hlive, hok.permits,
    fun l hl => hok.pods_length hl⟩

/-! ### A run with one Pod -/

section Scripts

/-- Lists and writes are answered from what is stored. -/
def prompt (t : Task ι) (s : Site ι cfg) : ClusterOp → Choice
  | .listLeases ns => .leases ((s.clusters t.cluster).leases.filter fun l => l.ns == ns)
  | .listObjects apiVersion kind ns label => .objects
    (((s.clusters t.cluster).objects.map Stored.object).filter
      (Cluster.selects apiVersion kind ns label))
  | _ => .ok

abbrev Script (F : Fleet ι) (cfg : Server.Config) := List (Pool.Cue (machine F cfg))

def pass (j : ι) (l : BerthLease) : Pool.Cue (machine F cfg) :=
  .act (.spawn ⟨j, .reconcile l.key⟩)

def happen (j : ι) (e : LocalEnv) : Pool.Cue (machine F cfg) := .act (.env (.cluster j e))

/-- The API server handles write `id`. -/
def handling (j : ι) (id : Nat) : Pool.Cue (machine F cfg) := .act (.spawn ⟨j, .write id⟩)

/-- The central server processes request `id` at time `τ`. -/
def serving (id : Nat) (τ : Time) : Script F cfg :=
  [.act (.env (.serve id .answer)), .act (.env (.serve id (.clock τ))),
   .act (.env (.serve id .answer))]

/-- A lease is created and gets its finalizer from thread `i`; its target
is created by write `id`, which thread `i + 1` handles. -/
def prepare (j : ι) (l : BerthLease) (target : Object) (i id : Nat) : Script F cfg :=
  [happen j (.createLease l), pass j l, .go i 3,
   happen j (.request (.create target) "user" false), handling j id, .go (i + 1) 6]

/-- Thread `i` acquires with central request `r` and scales its target up
with write `id`, which thread `i + 1` handles. -/
def activate (j : ι) (l : BerthLease) (i r id : Nat) (τ : Time) : Script F cfg :=
  [pass j l, .go i 4] ++ serving r τ ++ [.go i 7, handling j id, .go (i + 1) 4, .go i 4]

/-- A Pod is created by write `id`, which thread `i` handles; thread
`i + 1` registers it and takes the gate off by the next write, which thread
`i + 2` handles. -/
def startPod (j : ι) (pod : Object) (i id : Nat) : Script F cfg :=
  [happen j (.request (.create pod) "user" false), handling j id, .go i 4,
   .act (.spawn ⟨j, .reconcilePod ⟨pod.ns, pod.name⟩⟩), .go (i + 1) 8,
   handling j (id + 1), .go (i + 2) 4, .go (i + 1) 1]

end Scripts

/-- One cluster. -/
def solo (serial : Bool) : Fleet Unit where
  config := fun _ => { clusterIdentity := "east", operatorUser := "operator" }
  identity := fun _ => none
  serial := serial
  honest := false
  mayCreate := fun _ _ => true
  mayCall := fun _ => true

/-- One clock, no tenants, any writes. -/
abbrev plain : Server.Config := ⟨.single, none, false⟩

def nightly : BerthLease :=
  { ns := "jobs", name := "nightly", uid := "lease-1"
    spec :=
      { leaseName := "nightly", holderIdentity := "east", ttlSeconds := 10
        heartbeatIntervalSeconds := 3, target := some ⟨"apps/v1", "StatefulSet", "web"⟩
        acquireAction := some { scale := some 1 }, releaseAction := some { scale := some 0 } } }

/-- The metadata of what is bound to a lease. -/
def boundTo (l : BerthLease) : Meta :=
  { annotations := ((∅ : StringMap).insert managedLease l.name).insert managedUID l.uid
    labels := (∅ : StringMap).insert managedUID l.uid }

/-- A scalable target of a lease. -/
def targetOf (l : BerthLease) (name uid : String) : Object :=
  { apiVersion := "apps/v1", kind := "StatefulSet", ns := l.ns, name := name, uid := uid
    metadata := boundTo l, replicas := some 0
    template := some { metadata := boundTo l, spec := { schedulingGates := [schedulingGate] } } }

def web : Object := targetOf nightly "web" "target-1"

def web0 : Object :=
  { apiVersion := "v1", kind := "Pod", ns := "jobs", name := "web-0", uid := "pod-1"
    metadata := boundTo nightly
    ownerReferences := [⟨"apps/v1", "StatefulSet", "web", "target-1", some true, some true⟩]
    pod := { schedulingGates := [schedulingGate] } }

def startRun (serial : Bool) : Script (solo serial) plain :=
  prepare () nightly web 0 0 ++ activate () nightly 2 0 1 0 ++ startPod () web0 4 2

/-- The Pod runs. -/
def started : Pool (machine (solo true) plain) :=
  (fresh (solo true) plain 0).played prompt (startRun true) (by decide)

theorem registration_covers_execution_started :
    (∃ o ∈ (started.shared.clusters ()).objects, o.object.isPod = true ∧
      o.admitted = "lease-1" ∧ o.object.pod.gateOn = false ∧ o.object.terminal = false) ∧
    (∀ o ∈ (started.shared.clusters ()).objects, o.object.isPod = true →
      o.admitted = "lease-1" → o.object.pod.gateOn = false → o.object.terminal = false →
      ∃ l ∈ (started.shared.clusters ()).leases, l.uid = "lease-1" ∧
        ⟨o.object.name, o.object.uid⟩ ∈ l.pods) := by
  refine ⟨by decide, fun o ho hpod hadm hgate hlive => ?_⟩
  rw [← hadm]
  exact (registration_covers_execution (Pool.reaches_played _) ()).1 o ho hpod
    (by rw [hadm]; decide) hgate hlive

/-! ## Releases -/

/-- A lease is released only after its Pods. In every run in which passes
over one lease do not overlap: while a lease is marked, every Pod that was
admitted under it is gated or has terminated. A call of Release and a
write that takes the finalizer off mark a lease with a target, and the
mark stays until the lease is stored active. -/
theorem release_follows_drain (hserial : F.serial = true) {τ : Time} {p : Pool (machine F cfg)}
    (h : (fresh F cfg τ).Reaches p) (j : ι) :
    (∀ o ∈ (p.shared.clusters j).objects, o.object.isPod = true → o.admitted ≠ "" →
      o.admitted ∈ (p.shared.clusters j).fenced →
      o.object.pod.gateOn = true ∨ o.object.terminal = true) ∧
    (∀ q i l key endpoint n, Performs p q j i ⟨.post l key endpoint, n⟩ →
      isRelease endpoint = true → l.spec.target.isSome = true →
      l.uid ∈ (q.shared.clusters j).fenced) ∧
    (∀ q i l r, Performs p q j i ⟨.updateLease l, r⟩ → finalizerName ∉ l.finalizers →
      l.spec.target.isSome = true → l.uid ∈ (q.shared.clusters j).fenced) ∧
    ∀ q, p.Step q → ∀ u ∈ (p.shared.clusters j).fenced, u ∈ (q.shared.clusters j).fenced ∨
      ∃ l ∈ (q.shared.clusters j).leases, l.uid = u ∧ l.phase = .active := by
  have hok := site_ok h
  refine ⟨fun o ho hpod hadm hmark => ?_, fun q i l key endpoint n hcall hrel htarget => ?_,
    fun q i l r hcall hfin htarget => ?_, fun q hs => retains_step hs j⟩
  · by_contra hrun
    simp only [not_or, Bool.not_eq_true] at hrun
    obtain ⟨l, hl, huid, hmem⟩ := (hok.clusters j).registered ho hpod hadm hrun.1 hrun.2
    have hdead := ((hok.clusters j).fence hserial _ hmark l hl huid).2 _ hmem
    have := hdead.2 o ho rfl
    rw [hrun.2] at this
    cases this
  · exact fenced_of_release hok hcall hrel htarget
  · exact fenced_of_unfinalized hok (site_ok (h.tail hcall.1)) hcall hfin htarget

/-- The Pod terminates and the lease is deleted; thread 7 stops the target
with write 4, finds nothing running and calls Release. -/
def releaseRun : Script (solo true) plain :=
  [happen () (.podPhase web0.key .succeeded), happen () (.deleteLease nightly.key),
   pass () nightly, .go 7 5, handling () 4, .go 8 2, .go 7 3, .act (.exec 7 .graceful), .go 7 1]

def released : Pool (machine (solo true) plain) :=
  (fresh (solo true) plain 0).played prompt (startRun true ++ releaseRun) (by decide)

theorem release_follows_drain_deleted :
    (∃ o ∈ (released.shared.clusters ()).objects, o.object.isPod = true ∧
      o.admitted = "lease-1" ∧ o.object.pod.gateOn = false) ∧
    "lease-1" ∈ (released.shared.clusters ()).fenced ∧
    ∀ o ∈ (released.shared.clusters ()).objects, o.object.isPod = true →
      o.admitted = "lease-1" → o.object.pod.gateOn = true ∨ o.object.terminal = true := by
  have hmark : "lease-1" ∈ (released.shared.clusters ()).fenced := by decide
  refine ⟨by decide, hmark, fun o ho hpod hadm => ?_⟩
  exact (release_follows_drain rfl (Pool.reaches_played _) ()).1 o ho hpod
    (by rw [hadm]; decide) (by rw [hadm]; exact hmark)

/-- Two passes that overlap. The deadline passes; thread 4 stops the lease,
drains, and is about to call Release. Thread 6 does all of that to the end,
a third pass activates the lease again, and the Pod starts. -/
def overlapRun : Script (solo false) plain :=
  prepare () nightly web 0 0 ++ activate () nightly 2 0 1 0 ++
    [.act (.env (.tick (11 * second))), pass () nightly, .go 4 6, handling () 2, .go 5 2, .go 4 3,
     pass () nightly, .go 6 6] ++ serving 1 (11 * second) ++ [.go 6 3] ++
    activate () nightly 7 2 3 (11 * second) ++ startPod () web0 9 4

def overlapped : Pool (machine (solo false) plain) :=
  (fresh (solo false) plain 0).played prompt (overlapRun ++ [.go 4 1]) (by decide)

/-- Then thread 4 calls Release while the Pod runs. -/
theorem release_overtaken_by_overlap :
    ∃ p, (fresh (solo false) plain 0).Reaches p ∧
      ∃ o ∈ (p.shared.clusters ()).objects, o.object.isPod = true ∧ o.admitted ≠ "" ∧
        o.admitted ∈ (p.shared.clusters ()).fenced ∧ o.object.pod.gateOn = false ∧
        o.object.terminal = false :=
  ⟨overlapped, Pool.reaches_played _, by decide⟩

end Berth.Operator
