/-
Berth.Operator.WellFormed — the shape of a cluster.

Resource versions order the versions of every lease, the stored lease is
the newest of its name, and UIDs identify objects. One lemma per way of
storing or removing something says that the shape is kept and that the
cluster evolves.
-/
import Berth.Operator.ClusterTheorems

namespace Berth.Operator

open Berth.Interleave Berth.Lease Berth.Api Berth.Client

variable {c c' : Cluster} {l m cur : BerthLease} {v : Version}

/-! ## Well-formed clusters -/

/-- The two are states of one lease: what no update changes is equal. -/
structure SameLease (l m : BerthLease) : Prop where
  uid : m.uid = l.uid
  ns : m.ns = l.ns
  name : m.name = l.name
  leaseName : m.spec.leaseName = l.spec.leaseName
  holder : m.spec.holderIdentity = l.spec.holderIdentity
  target : m.spec.target = l.spec.target

theorem SameLease.refl (l : BerthLease) : SameLease l l := ⟨rfl, rfl, rfl, rfl, rfl, rfl⟩

theorem SameLease.symm (h : SameLease l m) : SameLease m l :=
  ⟨h.uid.symm, h.ns.symm, h.name.symm, h.leaseName.symm, h.holder.symm, h.target.symm⟩

theorem SameLease.trans {n : BerthLease} (h : SameLease l m) (h' : SameLease m n) :
    SameLease l n :=
  ⟨h'.uid.trans h.uid, h'.ns.trans h.ns, h'.name.trans h.name, h'.leaseName.trans h.leaseName,
    h'.holder.trans h.holder, h'.target.trans h.target⟩

theorem SameLease.key (h : SameLease l m) : m.key = l.key := by
  rw [BerthLease.key, BerthLease.key, h.ns, h.name]

theorem SameLease.central (h : SameLease l m) : m.central = l.central := by
  rw [BerthLease.central, BerthLease.central, h.ns, h.leaseName]

theorem SameLease.holderFor (h : SameLease l m) (cfg : Config) :
    cfg.holderFor m = cfg.holderFor l := by
  rw [Config.holderFor, Config.holderFor, h.holder]

structure Wf (c : Cluster) : Prop where
  sorted : c.versions.Pairwise fun a b => b.lease.resourceVersion < a.lease.resourceVersion
  top : ∀ v ∈ c.versions, v.lease.resourceVersion ≤ c.revision
  current : ∀ l ∈ c.leases, ∃ n, ⟨l, n⟩ ∈ c.versions
  newest : ∀ l ∈ c.leases, ∀ v ∈ c.versions, v.lease.key = l.key →
    v.lease.resourceVersion ≤ l.resourceVersion
  lease_key : ∀ l ∈ c.leases, ∀ m ∈ c.leases, l.key = m.key → l = m
  kept : ∀ l ∈ c.leases, l.deletionTimestamp.isSome = true → l.finalizers ≠ []
  known : ∀ v ∈ c.versions, v.lease.uid ≠ "" ∧ v.lease.uid ∈ c.uids
  same : ∀ v ∈ c.versions, ∀ u ∈ c.versions, v.lease.uid = u.lease.uid →
    SameLease v.lease u.lease
  object_top : ∀ o ∈ c.objects, o.object.resourceVersion ≤ c.revision
  object_uid : ∀ o ∈ c.objects, o.object.uid ∈ c.uids
  object_key : ∀ o ∈ c.objects, ∀ o' ∈ c.objects, o.object.key = o'.object.key → o = o'
  object_inj : ∀ o ∈ c.objects, ∀ o' ∈ c.objects, o.object.uid = o'.object.uid → o = o'

theorem lease?_some {k : Key} (h : c.lease? k = some l) : l ∈ c.leases ∧ l.key = k := by
  have hk := List.find?_some h
  exact ⟨List.mem_of_find?_eq_some h, by simpa using hk⟩

theorem lease?_none {k : Key} (h : c.lease? k = none) : ∀ l ∈ c.leases, l.key ≠ k := by
  simpa [Cluster.lease?] using h

theorem object?_some {k : ObjectKey} {o : Stored} (h : c.object? k = some o) :
    o ∈ c.objects ∧ o.object.key = k := by
  have hk := List.find?_some h
  exact ⟨List.mem_of_find?_eq_some h, by simpa using hk⟩

/-- A resource version belongs to one version. -/
theorem Wf.eq_of_rv {u : Version} (h : Wf c) (hv : v ∈ c.versions) (hu : u ∈ c.versions)
    (heq : v.lease.resourceVersion = u.lease.resourceVersion) : v = u := by
  by_contra hne
  have hdiff : c.versions.Pairwise fun a b =>
      a.lease.resourceVersion ≠ b.lease.resourceVersion :=
    h.sorted.imp fun hab => Nat.ne_of_gt hab
  have : Std.Symm fun a b : Version => a.lease.resourceVersion ≠ b.lease.resourceVersion :=
    ⟨fun _ _ => Ne.symm⟩
  exact hdiff.forall hv hu hne heq

/-- What the compare-and-swap of a lease write is about. -/
theorem Wf.cas (h : Wf c) {k : Key} (hcur : c.lease? k = some cur) (hv : v ∈ c.versions)
    (hrv : cur.resourceVersion = v.lease.resourceVersion) : cur = v.lease ∧ v.lease ∈ c.leases := by
  obtain ⟨hmem, _⟩ := lease?_some hcur
  obtain ⟨n, hn⟩ := h.current cur hmem
  have heq := h.eq_of_rv hn hv hrv
  rw [← heq]
  exact ⟨rfl, hmem⟩

/-! ## Single changes of a cluster -/

/-- The lease under a resource version. -/
def BerthLease.stamped (l : BerthLease) (rv : Nat) : BerthLease := { l with resourceVersion := rv }

section Stamped

variable {rv : Nat}

theorem SameLease.stamped (h : SameLease l m) (rv : Nat) : SameLease l (m.stamped rv) :=
  ⟨h.uid, h.ns, h.name, h.leaseName, h.holder, h.target⟩

end Stamped

section Cluster

variable {n : Nat}

theorem mem_putLease :
    m ∈ (c.putLease n l).leases ↔
      m = l.stamped (c.revision + 1) ∨ m ∈ c.leases ∧ m.key ≠ l.key := by
  simp only [Cluster.putLease, List.mem_cons, List.mem_filter, decide_eq_true_eq]
  rfl

theorem mem_dropLease {k : Key} :
    m ∈ (c.dropLease k).leases ↔ m ∈ c.leases ∧ m.key ≠ k := by
  simp [Cluster.dropLease]

/-- A new state of a lease that was there, or of a new one. -/
theorem Wf.putLease (h : Wf c) (hknown : l.uid ≠ "" ∧ l.uid ∈ c.uids)
    (hsame : ∀ v ∈ c.versions, v.lease.uid = l.uid → SameLease v.lease l)
    (hkept : l.deletionTimestamp.isSome = true → l.finalizers ≠ []) :
    Wf (c.putLease n l) where
  sorted := List.pairwise_cons.mpr ⟨fun v hv => Nat.lt_succ_of_le (h.top v hv), h.sorted⟩
  top := by
    intro v hv
    rcases List.mem_cons.mp hv with rfl | hv
    · exact Nat.le_refl _
    · exact Nat.le_succ_of_le (h.top v hv)
  current := by
    intro m hm
    rcases mem_putLease.mp hm with rfl | ⟨hm, _⟩
    · exact ⟨n, List.mem_cons_self⟩
    · obtain ⟨k, hk⟩ := h.current m hm
      exact ⟨k, List.mem_cons_of_mem _ hk⟩
  newest := by
    intro m hm v hv hkey
    rcases mem_putLease.mp hm with rfl | ⟨hm, hne⟩
    · rcases List.mem_cons.mp hv with rfl | hv
      · exact Nat.le_refl _
      · exact Nat.le_succ_of_le (h.top v hv)
    · rcases List.mem_cons.mp hv with rfl | hv
      · exact absurd hkey.symm hne
      · exact h.newest m hm v hv hkey
  lease_key := by
    intro m hm m' hm' hkey
    rcases mem_putLease.mp hm with rfl | ⟨hm, hne⟩
    · rcases mem_putLease.mp hm' with rfl | ⟨_, hne'⟩
      · rfl
      · exact absurd hkey.symm hne'
    · rcases mem_putLease.mp hm' with rfl | ⟨hm', _⟩
      · exact absurd hkey hne
      · exact h.lease_key m hm m' hm' hkey
  kept := by
    intro m hm
    rcases mem_putLease.mp hm with rfl | ⟨hm, _⟩
    · exact hkept
    · exact h.kept m hm
  known := by
    intro v hv
    rcases List.mem_cons.mp hv with rfl | hv
    · exact hknown
    · exact h.known v hv
  same := by
    intro v hv u hu heq
    rcases List.mem_cons.mp hv with rfl | hv
    · rcases List.mem_cons.mp hu with rfl | hu
      · exact SameLease.refl _
      · exact ((hsame u hu heq.symm).stamped _).symm
    · rcases List.mem_cons.mp hu with rfl | hu
      · exact (hsame v hv heq).stamped _
      · exact h.same v hv u hu heq
  object_top := fun o ho => Nat.le_succ_of_le (h.object_top o ho)
  object_uid := h.object_uid
  object_key := h.object_key
  object_inj := h.object_inj

theorem Wf.dropLease (h : Wf c) (k : Key) : Wf (c.dropLease k) where
  sorted := h.sorted
  top := h.top
  current := fun m hm => h.current m (mem_dropLease.mp hm).1
  newest := fun m hm => h.newest m (mem_dropLease.mp hm).1
  lease_key := fun m hm m' hm' => h.lease_key m (mem_dropLease.mp hm).1 m' (mem_dropLease.mp hm').1
  kept := fun m hm => h.kept m (mem_dropLease.mp hm).1
  known := h.known
  same := h.same
  object_top := h.object_top
  object_uid := h.object_uid
  object_key := h.object_key
  object_inj := h.object_inj

/-- Any lease that is stored under a UID is the one of the versions. -/
theorem Wf.same_current (h : Wf c) (hv : v ∈ c.versions) (hl : l ∈ c.leases)
    (heq : v.lease.uid = l.uid) : SameLease v.lease l := by
  obtain ⟨n, hn⟩ := h.current l hl
  exact h.same v hv _ hn heq

/-- A state of an object under the next revision. -/
def Stored.stamped (o : Stored) (rv : Nat) : Stored :=
  { o with object := { o.object with resourceVersion := rv } }

theorem mem_putObject {o p : Stored} :
    p ∈ (c.putObject o).objects ↔
      p = o.stamped (c.revision + 1) ∨ p ∈ c.objects ∧ p.object.key ≠ o.object.key := by
  simp [Cluster.putObject, Stored.stamped]

theorem mem_dropObject {k : ObjectKey} {p : Stored} :
    p ∈ (c.dropObject k).objects ↔ p ∈ c.objects ∧ p.object.key ≠ k := by
  simp [Cluster.dropObject]

/-- The object is a later state of a stored one, or new. -/
def Origin (c : Cluster) (o : Stored) : Prop :=
  (∃ p ∈ c.objects, Descends p o) ∨ o.object.uid ∉ c.uids

theorem Wf.putObject {o : Stored} (h : Wf c) (ho : Origin c o) : Wf (c.putObject o) where
  sorted := h.sorted
  top := fun v hv => Nat.le_succ_of_le (h.top v hv)
  current := h.current
  newest := h.newest
  lease_key := h.lease_key
  kept := h.kept
  known := fun v hv => ⟨(h.known v hv).1, List.mem_cons_of_mem _ (h.known v hv).2⟩
  same := h.same
  object_top := by
    intro p hp
    rcases mem_putObject.mp hp with rfl | ⟨hp, _⟩
    · exact Nat.le_refl _
    · exact Nat.le_succ_of_le (h.object_top p hp)
  object_uid := by
    intro p hp
    rcases mem_putObject.mp hp with rfl | ⟨hp, _⟩
    · exact List.mem_cons_self
    · exact List.mem_cons_of_mem _ (h.object_uid p hp)
  object_key := by
    intro p hp p' hp' hkey
    rcases mem_putObject.mp hp with rfl | ⟨hp, hne⟩
    · rcases mem_putObject.mp hp' with rfl | ⟨_, hne'⟩
      · rfl
      · exact absurd hkey.symm hne'
    · rcases mem_putObject.mp hp' with rfl | ⟨hp', _⟩
      · exact absurd hkey hne
      · exact h.object_key p hp p' hp' hkey
  object_inj := by
    -- an object that is still there has another name, hence another UID
    have hother : ∀ p ∈ c.objects, p.object.key ≠ o.object.key → p.object.uid ≠ o.object.uid := by
      intro p hp hne heq
      rcases ho with ⟨q, hq, hd⟩ | hnew
      · have : p = q := h.object_inj p hp q hq (heq.trans hd.uid)
        rw [this] at hne
        exact hne hd.key.symm
      · exact hnew (heq ▸ h.object_uid p hp)
    intro p hp p' hp' huid
    rcases mem_putObject.mp hp with rfl | ⟨hp, hne⟩
    · rcases mem_putObject.mp hp' with rfl | ⟨hp', hne'⟩
      · rfl
      · exact absurd huid.symm (hother p' hp' hne')
    · rcases mem_putObject.mp hp' with rfl | ⟨hp', _⟩
      · exact absurd huid (hother p hp hne)
      · exact h.object_inj p hp p' hp' huid

theorem Wf.dropObject (h : Wf c) (k : ObjectKey) : Wf (c.dropObject k) where
  sorted := h.sorted
  top := h.top
  current := h.current
  newest := h.newest
  lease_key := h.lease_key
  kept := h.kept
  known := h.known
  same := h.same
  object_top := fun p hp => h.object_top p (mem_dropObject.mp hp).1
  object_uid := fun p hp => h.object_uid p (mem_dropObject.mp hp).1
  object_key := fun p hp p' hp' =>
    h.object_key p (mem_dropObject.mp hp).1 p' (mem_dropObject.mp hp').1
  object_inj := fun p hp p' hp' =>
    h.object_inj p (mem_dropObject.mp hp).1 p' (mem_dropObject.mp hp').1

theorem Evolves.putLease (c : Cluster) (n : Nat) (l : BerthLease) : Evolves c (c.putLease n l) where
  __ := Evolves.refl c
  revision := Nat.le_succ _
  versions := List.suffix_cons _ _
  later := by
    intro v hv
    rcases List.mem_cons.mp hv with rfl | hv
    · exact .inr (Nat.lt_succ_self _)
    · exact .inl hv
  halts := fun _ _ _ _ _ hh => hh

theorem Evolves.dropLease (c : Cluster) (k : Key) : Evolves c (c.dropLease k) :=
  { Evolves.refl c with }

/-- The new state of an object does not wake up a target that was halted
for a lease that is stopping. -/
def Rests (c : Cluster) (o : Stored) : Prop :=
  ∀ p ∈ c.objects, p.object.uid = o.object.uid → ∀ v ∈ c.versions,
    v.lease.targetUID = o.object.uid → v.lease.targetUID ≠ "" →
    StoppingFrom c v.lease.uid v.lease.resourceVersion →
    v.lease.resourceVersion < p.object.resourceVersion →
    inactiveTarget p.object = true → inactiveTarget o.object = true

theorem Evolves.putObject {o : Stored} (h : Wf c) (ho : Origin c o) (hr : Rests c o) :
    Evolves c (c.putObject o) where
  __ := Evolves.refl c
  revision := Nat.le_succ _
  uids := List.subset_cons_self _ _
  objects := by
    intro p hp hu
    rcases mem_putObject.mp hp with rfl | ⟨hp, _⟩
    · rcases ho with ⟨q, hq, hd⟩ | hnew
      · exact ⟨q, hq, hd.key, hd.uid, hd.admitted, hd.bound, hd.terminal⟩
      · exact absurd hu hnew
    · exact ⟨p, hp, Descends.refl p⟩
  halts := by
    intro v hv hne hu hstop hh p hp huid
    rcases mem_putObject.mp hp with rfl | ⟨hp, _⟩
    · have huid : o.object.uid = v.lease.targetUID := huid
      rcases ho with ⟨q, hq, hd⟩ | hnew
      · obtain ⟨hlt, hin⟩ := hh q hq (hd.uid.symm.trans huid)
        refine ⟨Nat.lt_succ_of_le (Nat.le_trans (Nat.le_of_lt hlt) (h.object_top q hq)), ?_⟩
        exact hr q hq hd.uid.symm v hv huid.symm hne hstop hlt hin
      · exact absurd (huid ▸ hu) hnew
    · exact hh p hp huid
  requests := Grows.refl _
  journal := List.suffix_refl _

/-- A new state that is as active as the old one. -/
theorem Rests.of_inactive {o : Stored}
    (h : ∀ p ∈ c.objects, p.object.uid = o.object.uid → inactiveTarget p.object = true →
      inactiveTarget o.object = true) : Rests c o :=
  fun p hp huid _ _ _ _ _ _ hin => h p hp huid hin

theorem Evolves.dropObject (c : Cluster) (k : ObjectKey) : Evolves c (c.dropObject k) where
  __ := Evolves.refl c
  objects := fun o ho _ => ⟨o, (mem_dropObject.mp ho).1, Descends.refl o⟩
  halts := fun _ _ _ _ _ hh o ho => hh o (mem_dropObject.mp ho).1

end Cluster

end Berth.Operator
