/-
Berth.Operator.Records — the records of a cluster say the truth.

`ClusterOk` is the invariant of one cluster: a registered Pod is listed
until it is dead, an ungated Pod was registered, a gate removal was
permitted, and a lease whose release was called has no live Pod. Writes
that are still under way were computed from a version that they may
replace.
-/
import Berth.Operator.Changes

namespace Berth.Operator

open Berth.Interleave Berth.Lease Berth.Api Berth.Client

variable {ι : Type} {cfg : Server.Config} {F : Fleet ι} {j : ι}
variable {s s' s'' : Site ι cfg} {c c' : Cluster} {l m cur : BerthLease} {v : Version}

/-! ## Cleanup -/

/-- A copy of the lease with other reports. -/
def BerthLease.reporting (l : BerthLease) (generation : Nat) (conditions : List Condition) :
    BerthLease :=
  { l with status :=
    { l.status with observedGeneration := generation, conditions := conditions } }

/-- The recorded tenure, if there is one, was released or is somebody
else's. -/
def Released (m : BerthLease) (evs : List (Event ClusterSig)) : Prop :=
  ∀ a, m.activation = some a → a.token ≠ 0 →
    ∃ r, (LeaseClient.release m ⟨m.ns, a.leaseName⟩ a.holder a.token (localTimeout.tdiv 2)).Ran evs r ∧
      (r = .ok () ∨ ∃ e, r = .error e ∧ e.is .clientConflict = true)

/-- A pass with copy `m` saw the target stopped, the Jobs gone and the Pods
done, and then released. -/
def Cleanup (m : BerthLease) (evs : List (Event ClusterSig)) : Prop :=
  ∃ stop jobs pods release, evs = stop ++ (jobs ++ (pods ++ release)) ∧
    (stopTarget m).Ran stop none ∧ (drainJobs m).Ran jobs (.ok true) ∧
    (drainPods m).Ran pods (.ok true) ∧ Released m release

/-- The copy without the finalizer. -/
def BerthLease.unfinalized (m : BerthLease) : BerthLease :=
  { m with finalizers := m.finalizers.filter (· ≠ finalizerName) }

/-- The write with which `stopAndRelease` ends. -/
def Closing (m : BerthLease) (e : Event ClusterSig) : Prop :=
  e.1 = .updateStatus (Reconciler.cleared m) ∨ e.1 = .updateLease m.unfinalized

/-- Some pass over the lease cleaned up and then wrote that it had. -/
def Cleaned (c : Cluster) (l : BerthLease) : Prop :=
  ∃ i g cs evs e, Cleanup (l.reporting g cs) evs ∧ Closing (l.reporting g cs) e ∧
    (e :: evs.reverse) <:+: c.events i

theorem events_suffix {i : Nat} (h : c.journal <:+ c'.journal) : c.events i <:+ c'.events i := by
  obtain ⟨t, ht⟩ := h
  unfold Cluster.events
  rw [← ht, List.filter_append, List.map_append]
  exact List.suffix_append _ _

theorem Cleaned.evolves (h : Cleaned c l) (he : Evolves c c') : Cleaned c' l := by
  obtain ⟨i, g, cs, evs, e, hclean, hclose, hin⟩ := h
  exact ⟨i, g, cs, evs, e, hclean, hclose, hin.trans (events_suffix he.journal).isInfix⟩

/-- The change from `l` to `l'` drops the responsibility for what `l`
activated. -/
def Drops (l l' : BerthLease) : Prop :=
  l.phase ≠ .idle ∧
    (l'.phase = .idle ∨ finalizerName ∈ l.finalizers ∧ finalizerName ∉ l'.finalizers)

/-- The moves of the persisted phase. -/
def Phase.mayMove : Phase → Phase → Bool
  | .idle, _ => true
  | .active, p => p == .active || p == .stopping
  | .stopping, p => p == .stopping || p == .idle

/-- One state of a lease and the next. -/
structure Next (c : Cluster) (l l' : BerthLease) : Prop where
  uid : l'.uid = l.uid
  phase : l.phase.mayMove l'.phase = true
  constant : l.phase ≠ .idle → l'.phase ≠ .idle → l'.activation = l.activation
  cleaned : Drops l l' → Cleaned c l

/-- In one step every lease moves on or goes, and not before its cleanup. -/
def Tidy (c c' : Cluster) : Prop :=
  ∀ l ∈ c.leases, (∃ l' ∈ c'.leases, Next c' l l') ∨
    ((∀ m ∈ c'.leases, m.uid ≠ l.uid) ∧
      (l.phase ≠ .idle → finalizerName ∈ l.finalizers → Cleaned c' l))

theorem Next.refl (c : Cluster) (l : BerthLease) : Next c l l where
  uid := rfl
  phase := by cases h : l.phase <;> rfl
  constant := fun _ _ => rfl
  cleaned := fun ⟨hne, h⟩ => by
    rcases h with h | ⟨h, h'⟩
    · exact absurd h hne
    · exact absurd h h'

theorem Tidy.of_eq (h : c'.leases = c.leases) : Tidy c c' :=
  fun l hl => .inl ⟨l, h ▸ hl, Next.refl c' l⟩

theorem Follows.mayMove (h : Follows F j s v l) : v.lease.phase.mayMove l.phase = true := by
  cases hv : v.lease.phase with
  | idle => rfl
  | active =>
    cases hl : l.phase with
    | idle => exact absurd hv (h.idle hl)
    | active => rfl
    | stopping => rfl
  | stopping =>
    cases hl : l.phase with
    | idle => rfl
    | active => exact absurd hv (h.active hl).1
    | stopping => rfl

/-! ## Invariant -/

/-- The write was computed from a version, which it may replace. -/
def WriteOk (F : Fleet ι) (j : ι) (s : Site ι cfg) (w : LeaseWrite) : Prop :=
  ∃ v ∈ (s.clusters j).versions, v.lease.key = w.lease.key ∧
    v.lease.resourceVersion = w.lease.resourceVersion ∧
    (Drops v.lease (w.over v.lease) → Cleaned (s.clusters j) v.lease) ∧
    match w with
    | .status l => Move F j s v l.status
    | .whole l => l.spec = v.lease.spec ∧ (finalizerName ∈ l.finalizers ∨
        ∀ w, v.lease.status.workload = some w → Settled j s v.lease w)

theorem WriteOk.carries {w : LeaseWrite} (h : WriteOk F j s w) (hc : Carries s s') :
    WriteOk F j s' w := by
  obtain ⟨v, hv, hk, hrv, hclean, hw⟩ := h
  refine ⟨v, (hc.clusters j).versions.subset hv, hk, hrv,
    fun hd => (hclean hd).evolves (hc.clusters j), ?_⟩
  cases w with
  | status l => exact Move.carries hw hc
  | whole l => exact ⟨hw.1, hw.2.imp id fun hset w hw' => (hset w hw').carries hc⟩

/-- What a gate removal was checked against. -/
def Permitted (c : Cluster) (u : Ungating) : Prop :=
  ∃ l t n, u.permit = some (l, t) ∧ ⟨l, n⟩ ∈ c.versions ∧ l.uid = u.binding ∧
    activeAt l t = true ∧ u.pod ∈ l.pods

/-- No registered Pod of the lease is alive, and the lease is not active. -/
def Quiesced (c : Cluster) (l : BerthLease) : Prop :=
  l.phase ≠ .active ∧ ∀ x ∈ l.pods, Dead c x.uid

structure ClusterOk (F : Fleet ι) (j : ι) (s : Site ι cfg) : Prop where
  wf : Wf (s.clusters j)
  born : ∀ v ∈ (s.clusters j).versions, v.born ≤ s.log
  version : ∀ v ∈ (s.clusters j).versions, VersionOk F j s v.lease
  late : ∀ w ∈ (s.clusters j).late, WriteOk F j s w
  listed : ∀ v ∈ (s.clusters j).versions, ∀ x ∈ v.lease.pods, Dead (s.clusters j) x.uid ∨
    ∃ l ∈ (s.clusters j).leases, l.uid = v.lease.uid ∧ x ∈ l.pods
  bound : ∀ o ∈ (s.clusters j).objects, o.admitted ≠ "" →
    o.object.annotation managedUID = o.admitted
  ungated : ∀ o ∈ (s.clusters j).objects, o.object.isPod = true → o.admitted ≠ "" →
    o.object.pod.gateOn = false → ∃ v ∈ (s.clusters j).versions, v.lease.uid = o.admitted ∧
      ⟨o.object.name, o.object.uid⟩ ∈ v.lease.pods
  permits : ∀ u ∈ (s.clusters j).ungatings, Permitted (s.clusters j) u
  fence : F.serial = true → ∀ u ∈ (s.clusters j).fenced, ∀ l ∈ (s.clusters j).leases,
    l.uid = u → Quiesced (s.clusters j) l

/-! ## Single changes of a site -/

/-- Cluster `j` becomes `c'`, and nothing else changes. -/
structure Becomes (s s' : Site ι cfg) (j : ι) (c' : Cluster) : Prop where
  central : s'.central = s.central
  here : s'.clusters j = c'
  others : ∀ k, k ≠ j → s'.clusters k = s.clusters k

theorem Becomes.log (h : Becomes s s' j c') : s'.log = s.log := by
  rw [Site.log, h.central, Site.log]

theorem Becomes.carries (h : Becomes s s' j c') (he : Evolves (s.clusters j) c') :
    Carries s s' := by
  refine ⟨?_, ?_, fun k => ?_⟩
  · rw [h.central]
    exact Relation.ReflTransGen.refl
  · rw [h.central]
  · by_cases hk : k = j
    · subst hk
      rw [h.here]
      exact he
    · rw [h.others k hk]
      exact Evolves.refl _

/-- What holds of a cluster that does not change. -/
theorem ClusterOk.same (h : ClusterOk F j s) (hc : Carries s s')
    (heq : s'.clusters j = s.clusters j) : ClusterOk F j s' where
  wf := by rw [heq]; exact h.wf
  born := by
    rw [heq]
    exact fun v hv => Nat.le_trans (h.born v hv) hc.log.length_le
  version := by
    rw [heq]
    exact fun v hv => (h.version v hv).carries hc
  late := by
    rw [heq]
    exact fun w hw => (h.late w hw).carries hc
  listed := by rw [heq]; exact h.listed
  bound := by rw [heq]; exact h.bound
  ungated := by rw [heq]; exact h.ungated
  permits := by rw [heq]; exact h.permits
  fence := by rw [heq]; exact h.fence

/-- The fields that the invariant reads, apart from `late` and `fenced`. -/
structure Alike (c c' : Cluster) : Prop where
  revision : c'.revision = c.revision
  leases : c'.leases = c.leases
  objects : c'.objects = c.objects
  uids : c.uids ⊆ c'.uids
  versions : c'.versions = c.versions
  ungatings : c'.ungatings = c.ungatings
  requests : Grows c.requests c'.requests
  journal : c.journal <:+ c'.journal

theorem Alike.evolves (h : Alike c c') : Evolves c c' where
  revision := Nat.le_of_eq h.revision.symm
  versions := by rw [h.versions]
  later := fun v hv => .inl (h.versions ▸ hv)
  uids := h.uids
  objects := fun o ho _ => ⟨o, h.objects ▸ ho, Descends.refl o⟩
  halts := fun _ _ _ _ _ hh o ho => hh o (h.objects ▸ ho)
  requests := h.requests
  journal := h.journal

theorem Alike.wf (h : Alike c c') (hw : Wf c) : Wf c' where
  sorted := by rw [h.versions]; exact hw.sorted
  top := by rw [h.versions, h.revision]; exact hw.top
  current := by rw [h.leases, h.versions]; exact hw.current
  newest := by rw [h.leases, h.versions]; exact hw.newest
  lease_key := by rw [h.leases]; exact hw.lease_key
  kept := by rw [h.leases]; exact hw.kept
  known := by
    rw [h.versions]
    exact fun v hv => ⟨(hw.known v hv).1, h.uids (hw.known v hv).2⟩
  same := by rw [h.versions]; exact hw.same
  object_top := by rw [h.objects, h.revision]; exact hw.object_top
  object_uid := by
    rw [h.objects]
    exact fun o ho => h.uids (hw.object_uid o ho)
  object_key := by rw [h.objects]; exact hw.object_key
  object_inj := by rw [h.objects]; exact hw.object_inj

theorem ClusterOk.alike (h : ClusterOk F j s) (hb : Becomes s s' j c')
    (ha : Alike (s.clusters j) c') (hlate : ∀ w ∈ c'.late, WriteOk F j s w)
    (hfence : F.serial = true → ∀ u ∈ c'.fenced, ∀ l ∈ (s.clusters j).leases, l.uid = u →
      Quiesced (s.clusters j) l) : ClusterOk F j s' := by
  have hc := hb.carries ha.evolves
  refine ⟨?_, ?_, ?_, ?_, ?_, ?_, ?_, ?_, ?_⟩ <;> rw [hb.here]
  · exact ha.wf h.wf
  · rw [ha.versions, hb.log]
    exact h.born
  · rw [ha.versions]
    exact fun v hv => (h.version v hv).carries hc
  · exact fun w hw => (hlate w hw).carries hc
  · rw [ha.versions, ha.leases]
    intro v hv x hx
    exact (h.listed v hv x hx).imp (fun hd => hd.evolves ha.evolves) id
  · rw [ha.objects]
    exact h.bound
  · rw [ha.objects, ha.versions]
    exact h.ungated
  · rw [ha.ungatings]
    intro u hu
    obtain ⟨l, t, n, hrest⟩ := h.permits u hu
    exact ⟨l, t, n, by rw [ha.versions]; exact hrest⟩
  · rw [ha.leases]
    intro hserial u hu l hl huid
    obtain ⟨hcalm, hdead⟩ := hfence hserial u hu l hl huid
    exact ⟨hcalm, fun x hx => (hdead x hx).evolves ha.evolves⟩

theorem Permitted.evolves {u : Ungating} (h : Permitted c u) (he : Evolves c c') :
    Permitted c' u := by
  obtain ⟨l, t, n, hp, hl, hrest⟩ := h
  exact ⟨l, t, n, hp, he.versions.subset hl, hrest⟩

theorem Quiesced.evolves (h : Quiesced c l) (he : Evolves c c') : Quiesced c' l :=
  ⟨h.1, fun x hx => (h.2 x hx).evolves he⟩

/-- A new state of a lease keeps the records true. -/
theorem ClusterOk.putLease (h : ClusterOk F j s)
    (hb : Becomes s s' j ((s.clusters j).putLease s.log l))
    (hwf : Wf ((s.clusters j).putLease s.log l)) (hv : VersionOk F j s l)
    (hkept : ∀ m ∈ (s.clusters j).leases, m.key = l.key → m.uid = l.uid ∧
      ∀ x ∈ m.pods, x ∈ l.pods ∨ Dead (s.clusters j) x.uid)
    (hquiet : F.serial = true → l.phase ≠ .active → l.uid ∈ (s.clusters j).fenced →
      Quiesced (s.clusters j) l) : ClusterOk F j s' := by
  have he := Evolves.putLease (s.clusters j) s.log l
  have hc := hb.carries he
  refine ⟨?_, ?_, ?_, ?_, ?_, ?_, ?_, ?_, ?_⟩ <;> rw [hb.here]
  · exact hwf
  · intro v hv
    rw [hb.log]
    rcases List.mem_cons.mp hv with rfl | hv
    · exact Nat.le_refl _
    · exact h.born v hv
  · intro v hv'
    rcases List.mem_cons.mp hv' with rfl | hv'
    · exact (hv.stamped _).carries hc
    · exact (h.version v hv').carries hc
  · exact fun w hw => (h.late w hw).carries hc
  · intro v hv' x hx
    rcases List.mem_cons.mp hv' with rfl | hv'
    · exact .inr ⟨_, mem_putLease.mpr (.inl rfl), rfl, hx⟩
    rcases h.listed v hv' x hx with hd | ⟨m, hm, huid, hx⟩
    · exact .inl (hd.evolves he)
    by_cases hkey : m.key = l.key
    · obtain ⟨hmuid, hpods⟩ := hkept m hm hkey
      rcases hpods x hx with hx | hd
      · exact .inr ⟨_, mem_putLease.mpr (.inl rfl), hmuid.symm.trans huid, hx⟩
      · exact .inl (hd.evolves he)
    · exact .inr ⟨m, mem_putLease.mpr (.inr ⟨hm, hkey⟩), huid, hx⟩
  · exact h.bound
  · intro o ho hpod hadm hgate
    obtain ⟨v, hv', hrest⟩ := h.ungated o ho hpod hadm hgate
    exact ⟨v, List.mem_cons_of_mem _ hv', hrest⟩
  · exact fun u hu => (h.permits u hu).evolves he
  · intro hserial u hu m hm huid
    have hmem : u ∈ (s.clusters j).fenced ∧ (l.phase = .active → u ≠ l.uid) := by
      simp only [Cluster.putLease] at hu
      split at hu
      · obtain ⟨hu, hne⟩ := List.mem_filter.mp hu
        exact ⟨hu, fun _ => by simpa using hne⟩
      · next hp => exact ⟨hu, fun hp' => absurd hp' hp⟩
    rcases mem_putLease.mp hm with rfl | ⟨hm, _⟩
    · have hcalm : l.phase ≠ .active := fun hp => hmem.2 hp huid.symm
      have huid : l.uid = u := huid
      exact (hquiet hserial hcalm (huid ▸ hmem.1)).evolves he
    · exact (h.fence hserial u hmem.1 m hm huid).evolves he

/-- So does a change of a lease. -/
theorem ClusterOk.follow (h : ClusterOk F j s)
    (hb : Becomes s s' j ((s.clusters j).putLease s.log l)) (hv : v ∈ (s.clusters j).versions)
    (hcur : v.lease ∈ (s.clusters j).leases) (hf : Follows F j s v l)
    (hkept : l.deletionTimestamp.isSome = true → l.finalizers ≠ []) : ClusterOk F j s' := by
  refine h.putLease hb (h.wf.putLease ?_ ?_ hkept) hf.ok ?_ ?_
  · rw [hf.same.uid]
    exact h.wf.known v hv
  · intro u hu huid
    rw [hf.same.uid] at huid
    exact (h.wf.same u hu v hv huid).trans hf.same
  · intro m hm hkey
    have hmv : m = v.lease := h.wf.lease_key m hm v.lease hcur (hkey.trans hf.same.key)
    subst hmv
    exact ⟨hf.same.uid.symm, hf.kept⟩
  · intro hserial hcalm hfenced
    obtain ⟨_, hdead⟩ := h.fence hserial l.uid hfenced v.lease hcur hf.same.uid.symm
    exact ⟨hcalm, fun x hx => hdead x (hf.calm hcalm hx)⟩

/-- A lease whose Pods are dead may go. -/
theorem ClusterOk.dropLease {k : Key} (h : ClusterOk F j s)
    (hb : Becomes s s' j ((s.clusters j).dropLease k))
    (hdead : ∀ m ∈ (s.clusters j).leases, m.key = k → ∀ x ∈ m.pods,
      Dead (s.clusters j) x.uid) : ClusterOk F j s' := by
  have he := Evolves.dropLease (s.clusters j) k
  have hc := hb.carries he
  refine ⟨?_, ?_, ?_, ?_, ?_, ?_, ?_, ?_, ?_⟩ <;> rw [hb.here]
  · exact h.wf.dropLease k
  · rw [hb.log]
    exact h.born
  · exact fun v hv => (h.version v hv).carries hc
  · exact fun w hw => (h.late w hw).carries hc
  · intro v hv x hx
    rcases h.listed v hv x hx with hd | ⟨m, hm, huid, hx⟩
    · exact .inl hd
    · by_cases hkey : m.key = k
      · exact .inl (hdead m hm hkey x hx)
      · exact .inr ⟨m, mem_dropLease.mpr ⟨hm, hkey⟩, huid, hx⟩
  · exact h.bound
  · exact h.ungated
  · exact h.permits
  · exact fun hserial u hu m hm => h.fence hserial u hu m (mem_dropLease.mp hm).1

/-- An object changes or appears; a Pod without the gate is registered. -/
theorem ClusterOk.putObject {o : Stored} (h : ClusterOk F j s)
    (hb : Becomes s s' j ((s.clusters j).putObject o)) (ho : Origin (s.clusters j) o)
    (hr : Rests (s.clusters j) o)
    (hbound : o.admitted ≠ "" → o.object.annotation managedUID = o.admitted)
    (hungated : o.object.isPod = true → o.admitted ≠ "" → o.object.pod.gateOn = false →
      ∃ v ∈ (s.clusters j).versions, v.lease.uid = o.admitted ∧
        ⟨o.object.name, o.object.uid⟩ ∈ v.lease.pods) : ClusterOk F j s' := by
  have he := Evolves.putObject h.wf ho hr
  have hc := hb.carries he
  refine ⟨?_, ?_, ?_, ?_, ?_, ?_, ?_, ?_, ?_⟩ <;> rw [hb.here]
  · exact h.wf.putObject ho
  · rw [hb.log]
    exact h.born
  · exact fun v hv => (h.version v hv).carries hc
  · exact fun w hw => (h.late w hw).carries hc
  · exact fun v hv x hx => (h.listed v hv x hx).imp (fun hd => hd.evolves he) id
  · intro p hp
    rcases mem_putObject.mp hp with rfl | ⟨hp, _⟩
    · exact hbound
    · exact h.bound p hp
  · intro p hp
    rcases mem_putObject.mp hp with rfl | ⟨hp, _⟩
    · exact hungated
    · exact h.ungated p hp
  · exact fun u hu => (h.permits u hu).evolves he
  · exact fun hserial u hu m hm huid => (h.fence hserial u hu m hm huid).evolves he

theorem ClusterOk.dropObject {k : ObjectKey} (h : ClusterOk F j s)
    (hb : Becomes s s' j ((s.clusters j).dropObject k)) : ClusterOk F j s' := by
  have he := Evolves.dropObject (s.clusters j) k
  have hc := hb.carries he
  refine ⟨?_, ?_, ?_, ?_, ?_, ?_, ?_, ?_, ?_⟩ <;> rw [hb.here]
  · exact h.wf.dropObject k
  · rw [hb.log]
    exact h.born
  · exact fun v hv => (h.version v hv).carries hc
  · exact fun w hw => (h.late w hw).carries hc
  · exact fun v hv x hx => (h.listed v hv x hx).imp (fun hd => hd.evolves he) id
  · exact fun p hp => h.bound p (mem_dropObject.mp hp).1
  · exact fun p hp => h.ungated p (mem_dropObject.mp hp).1
  · exact fun u hu => (h.permits u hu).evolves he
  · exact fun hserial u hu m hm huid => (h.fence hserial u hu m hm huid).evolves he

/-! ## Steps of a lease -/

/-- A change of the stored state of a lease, with what justifies dropping
it. -/
theorem Tidy.replaceLease {n : Nat} (hwf : Wf c) (hcur : v.lease ∈ c.leases)
    (hf : Follows F j s v l) (hclean : Drops v.lease l → Cleaned c v.lease) :
    Tidy c (c.replaceLease n v.lease l).2 := by
  unfold Cluster.replaceLease
  split
  · exact Tidy.of_eq rfl
  split
  · next hgone =>
    -- the last finalizer went
    intro m hm
    by_cases hkey : m.key = l.key
    · have hmv : m = v.lease := hwf.lease_key m hm v.lease hcur (hkey.trans hf.same.key)
      subst hmv
      refine .inr ⟨fun m hm huid => ?_, fun hne hfin => ?_⟩
      · obtain ⟨hm, hne⟩ := mem_dropLease.mp hm
        obtain ⟨k, hk⟩ := hwf.current _ hcur
        exact hne ((hwf.same_current hk hm huid.symm).key.trans hf.same.key.symm)
      · refine (hclean ⟨hne, .inr ⟨hfin, ?_⟩⟩).evolves (Evolves.dropLease c l.key)
        rw [hgone.2]
        exact List.not_mem_nil
    · exact .inl ⟨m, mem_dropLease.mpr ⟨hm, hkey⟩, Next.refl _ m⟩
  · intro m hm
    by_cases hkey : m.key = l.key
    · have hmv : m = v.lease := hwf.lease_key m hm v.lease hcur (hkey.trans hf.same.key)
      subst hmv
      refine .inl ⟨_, mem_putLease.mpr (.inl rfl), hf.same.uid, hf.mayMove, hf.constant,
        fun hd => (hclean hd).evolves (Evolves.putLease c n l)⟩
    · exact .inl ⟨m, mem_putLease.mpr (.inr ⟨hm, hkey⟩), Next.refl _ m⟩

end Berth.Operator
