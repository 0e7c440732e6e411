/-
Berth.Operator.ClusterTheorems — what is always true of a cluster.

Everything a thread may remember of a cluster is monotone: a lease it read
stays in the list of versions, a Pod UID that is dead stays dead, a Pod
that belongs to a lease keeps belonging to it, and what the central log
said it goes on saying. `Carries` is that relation between two sites.

`Move` lists the ways in which the persisted status of a BerthLease may
change, with what justifies each; the justification is made of monotone
facts, so a write that was computed from an old copy and arrives late is
still justified when the compare-and-swap lets it through. `VersionOk` is
what holds of every version.
-/
import Berth.Client.LeasesTheorems
import Berth.Operator.Cluster

namespace Berth.Operator

open Berth.Interleave Berth.Lease Berth.Api Berth.Client

variable {ι : Type} {cfg : Server.Config} {F : Fleet ι} {j : ι}
variable {s s' s'' : Site ι cfg} {c c' c'' : Cluster} {l : BerthLease}

/-! ## Objects over time -/

/-- `o'` is a later state of `o`. -/
structure Descends (o o' : Stored) : Prop where
  key : o'.object.key = o.object.key
  uid : o'.object.uid = o.object.uid
  admitted : o'.admitted = o.admitted
  bound : o.object.annotation managedUID ≠ "" →
    o'.object.annotation managedUID = o.object.annotation managedUID ∧
      o'.object.annotation managedLease = o.object.annotation managedLease
  terminal : o.object.terminal = true → o'.object.terminal = true

theorem Descends.refl (o : Stored) : Descends o o := ⟨rfl, rfl, rfl, fun _ => ⟨rfl, rfl⟩, id⟩

theorem Descends.trans {o o' o'' : Stored} (h : Descends o o') (h' : Descends o' o'') :
    Descends o o'' where
  key := h'.key.trans h.key
  uid := h'.uid.trans h.uid
  admitted := h'.admitted.trans h.admitted
  bound := fun hne => by
    obtain ⟨huid, hname⟩ := h.bound hne
    rw [← huid] at hne
    obtain ⟨huid', hname'⟩ := h'.bound hne
    exact ⟨huid'.trans huid, hname'.trans hname⟩
  terminal := fun ht => h'.terminal (h.terminal ht)

/-- Requests are added and answered, once. -/
def Grows (rs rs' : List Pending) : Prop :=
  ∀ (id : Nat) (p : Pending), rs[id]? = some p → ∃ p', rs'[id]? = some p' ∧ p'.write = p.write ∧
    p'.dryRun = p.dryRun ∧ ∀ a, p.answer = some a → p'.answer = some a

theorem Grows.refl (rs : List Pending) : Grows rs rs :=
  fun _ p hp => ⟨p, hp, rfl, rfl, fun _ ha => ha⟩

theorem Grows.trans {rs rs' rs'' : List Pending} (h : Grows rs rs') (h' : Grows rs' rs'') :
    Grows rs rs'' := by
  intro id p hp
  obtain ⟨p', hp', hw, hd, ha⟩ := h id p hp
  obtain ⟨p'', hp'', hw', hd', ha'⟩ := h' id p' hp'
  exact ⟨p'', hp'', hw'.trans hw, hd'.trans hd, fun a hpa => ha' a (ha a hpa)⟩

/-- The lease has been stopping since revision `rv`. -/
def StoppingFrom (c : Cluster) (uid : String) (rv : Nat) : Prop :=
  ∀ v ∈ c.versions, v.lease.uid = uid → rv ≤ v.lease.resourceVersion → v.lease.phase = .stopping

/-- The object is inactive, and was touched after revision `rv`. -/
def Halted (c : Cluster) (rv : Nat) (uid : String) : Prop :=
  ∀ o ∈ c.objects, o.object.uid = uid →
    rv < o.object.resourceVersion ∧ inactiveTarget o.object = true

/-- What a cluster may turn into: versions, UIDs, requests and journal
entries are added, an object whose UID was in use descends from one that
was there, and a target that was halted stays so while its lease is
stopping. -/
structure Evolves (c c' : Cluster) : Prop where
  revision : c.revision ≤ c'.revision
  versions : c.versions <:+ c'.versions
  later : ∀ v ∈ c'.versions, v ∈ c.versions ∨ c.revision < v.lease.resourceVersion
  uids : c.uids ⊆ c'.uids
  objects : ∀ o' ∈ c'.objects, o'.object.uid ∈ c.uids → ∃ o ∈ c.objects, Descends o o'
  halts : ∀ v ∈ c.versions, v.lease.targetUID ≠ "" → v.lease.targetUID ∈ c.uids →
    StoppingFrom c' v.lease.uid v.lease.resourceVersion →
    Halted c v.lease.resourceVersion v.lease.targetUID →
    Halted c' v.lease.resourceVersion v.lease.targetUID
  requests : Grows c.requests c'.requests
  journal : c.journal <:+ c'.journal

theorem StoppingFrom.of_suffix {uid : String} {rv : Nat} (h : StoppingFrom c' uid rv)
    (hv : c.versions <:+ c'.versions) : StoppingFrom c uid rv :=
  fun v hmem => h v (hv.subset hmem)

theorem Evolves.refl (c : Cluster) : Evolves c c where
  revision := Nat.le_refl _
  versions := List.suffix_refl _
  later := fun _ hv => .inl hv
  uids := List.Subset.refl _
  objects := fun o ho _ => ⟨o, ho, Descends.refl o⟩
  halts := fun _ _ _ _ _ hh => hh
  requests := Grows.refl _
  journal := List.suffix_refl _

theorem Evolves.trans (h : Evolves c c') (h' : Evolves c' c'') : Evolves c c'' where
  revision := Nat.le_trans h.revision h'.revision
  versions := h.versions.trans h'.versions
  later := fun v hv => by
    rcases h'.later v hv with hv | hlt
    · exact h.later v hv
    · exact .inr (Nat.lt_of_le_of_lt h.revision hlt)
  halts := fun v hv hne hu hstop hh =>
    h'.halts v (h.versions.subset hv) hne (h.uids hu) hstop
      (h.halts v hv hne hu (hstop.of_suffix h'.versions) hh)
  uids := fun _ hu => h'.uids (h.uids hu)
  objects := by
    intro o'' ho'' hu
    obtain ⟨o', ho', hd'⟩ := h'.objects o'' ho'' (h.uids hu)
    rw [hd'.uid] at hu
    obtain ⟨o, ho, hd⟩ := h.objects o' ho' hu
    exact ⟨o, ho, hd.trans hd'⟩
  requests := h.requests.trans h'.requests
  journal := h.journal.trans h'.journal

/-- The Pod with this UID has terminated or is gone, for good. -/
def Dead (c : Cluster) (uid : String) : Prop :=
  uid ∈ c.uids ∧ ∀ o ∈ c.objects, o.object.uid = uid → o.object.terminal = true

theorem Dead.evolves {uid : String} (h : Dead c uid) (he : Evolves c c') : Dead c' uid := by
  refine ⟨he.uids h.1, fun o' ho' hu => ?_⟩
  obtain ⟨o, ho, hd⟩ := he.objects o' ho' (hu ▸ h.1)
  exact hd.terminal (h.2 o ho (hd.uid.symm.trans hu))

/-- The UID is that of a Pod of namespace `ns` that is bound to `lease`. -/
structure Pinned (c : Cluster) (ns lease uid : String) : Prop where
  used : uid ∈ c.uids
  named : lease ≠ ""
  stored : ∀ o ∈ c.objects, o.object.uid = uid →
    o.object.apiVersion = "v1" ∧ o.object.kind = "Pod" ∧ o.object.ns = ns ∧
      o.object.annotation managedUID = lease

theorem Pinned.evolves {ns lease uid : String} (h : Pinned c ns lease uid) (he : Evolves c c') :
    Pinned c' ns lease uid := by
  refine ⟨he.uids h.used, h.named, fun o' ho' hu => ?_⟩
  obtain ⟨o, ho, hd⟩ := he.objects o' ho' (hu ▸ h.used)
  obtain ⟨hver, hkind, hns, hann⟩ := h.stored o ho (hd.uid.symm.trans hu)
  have hkey := ObjectKey.mk.inj hd.key
  refine ⟨hkey.1.trans hver, hkey.2.1.trans hkind, hkey.2.2.1.trans hns, ?_⟩
  rw [(hd.bound (by rw [hann]; exact h.named)).1]
  exact hann

/-- The object is of the kind, name and binding that a target of `l` has. -/
structure Aimed (l : BerthLease) (o : Object) : Prop where
  uid : o.annotation managedUID = l.uid
  name : o.annotation managedLease = l.name
  key : ∃ t, l.spec.target = some t ∧ targetKey l t = o.key
  kind : o.apiVersion = "batch/v1" ∧ o.kind = "CronJob" ∨
    o.apiVersion = "apps/v1" ∧
      (o.kind = "Deployment" ∨ o.kind = "StatefulSet" ∨ o.kind = "ReplicaSet")

/-- Someone asked for the target with this UID. -/
def Requested (c : Cluster) (l : BerthLease) (uid : String) : Prop :=
  ∃ (id : Nat) (p : Pending) (o : Object),
    c.requests[id]? = some p ∧ p.write = .create o ∧ o.uid = uid ∧ Aimed l o

/-- What matters of the lease is its identity and its target. -/
theorem Requested.lease {m : BerthLease} {uid : String} (h : Requested c l uid)
    (huid : m.uid = l.uid) (hns : m.ns = l.ns) (hname : m.name = l.name)
    (htarget : m.spec.target = l.spec.target) : Requested c m uid := by
  obtain ⟨id, p, o, hp, hw, ho, haim⟩ := h
  obtain ⟨t, ht, hkey⟩ := haim.key
  refine ⟨id, p, o, hp, hw, ho, haim.uid.trans huid.symm, haim.name.trans hname.symm,
    ⟨t, htarget.trans ht, ?_⟩, haim.kind⟩
  rw [← hkey, targetKey, targetKey, hns]

theorem Requested.evolves {uid : String} (h : Requested c l uid) (he : Evolves c c') :
    Requested c' l uid := by
  obtain ⟨id, p, o, hp, hw, hrest⟩ := h
  obtain ⟨p', hp', hw', _⟩ := he.requests id p hp
  exact ⟨id, p', o, hp', hw'.trans hw, hrest⟩

/-! ## What the central log says -/

section Log

variable {ws ws' : List (Write Server.Call)} {k : Key} {h : String} {t : Int} {n m : Nat}

/-- `h` once had the lease under token `t`. -/
def Existed (ws : List (Write Server.Call)) (k : Key) (h : String) (t : Int) : Prop :=
  h ≠ "" ∧ ∃ x ∈ ws, x.new.key = k ∧ HeldBy h t (some x.new)

/-- When the log had `n` entries, the tenure of `h` under `t` was over. -/
def RetiredBy (ws : List (Write Server.Call)) (k : Key) (h : String) (t : Int) (n : Nat) : Prop :=
  ∃ ws₀, ws₀ <:+ ws ∧ ws₀.length ≤ n ∧ Existed ws₀ k h t ∧ ¬ HeldBy h t (storedAt ws₀ k)

/-- After the first `n` entries there is one that stores the lease for `h`
under `t` until the deadline, if there is a deadline. -/
def Grant (ws : List (Write Server.Call)) (n : Nat) (k : Key) (h : String) (t : Int)
    (deadline : Option Time) : Prop :=
  h ≠ "" ∧ ∃ x post, (x :: post) <:+ ws ∧ n ≤ post.length ∧ x.new.key = k ∧
    HeldBy h t (some x.new) ∧ ∀ d, deadline = some d → d ≤ x.new.expiresAt

theorem Existed.mono (he : Existed ws k h t) (hs : ws <:+ ws') : Existed ws' k h t := by
  obtain ⟨hne, x, hx, hrest⟩ := he
  exact ⟨hne, x, hs.subset hx, hrest⟩

theorem RetiredBy.mono (hr : RetiredBy ws k h t n) (hs : ws <:+ ws') (hn : n ≤ m) :
    RetiredBy ws' k h t m := by
  obtain ⟨ws₀, h₀, hlen, hrest⟩ := hr
  exact ⟨ws₀, h₀.trans hs, Nat.le_trans hlen hn, hrest⟩

theorem Grant.mono {d : Option Time} (hg : Grant ws n k h t d) (hs : ws <:+ ws') :
    Grant ws' n k h t d := by
  obtain ⟨hne, x, post, hx, hrest⟩ := hg
  exact ⟨hne, x, post, hx.trans hs, hrest⟩

theorem Grant.existed {d : Option Time} (hg : Grant ws n k h t d) : Existed ws k h t := by
  obtain ⟨hne, x, post, hx, _, hk, hheld, _⟩ := hg
  exact ⟨hne, x, hx.subset List.mem_cons_self, hk, hheld⟩

/-- A tenure that is over is not granted again. -/
theorem RetiredBy.not_grant {d : Option Time} (hh : History ws) (hr : RetiredBy ws k h t n) :
    ¬ Grant ws n k h t d := by
  rintro ⟨hne, x, post, hx, hlen, hk, hheld, _⟩
  obtain ⟨ws₀, h₀, hlen₀, ⟨_, y, hy, hyk, hyh⟩, hover⟩ := hr
  have hmem := (hh.tenure_over h₀ hne hy hyk hyh hover).2 x (hx.subset List.mem_cons_self) hk hheld
  have hpost : ws₀ <:+ post := by
    refine List.suffix_of_suffix_length_le h₀ ((List.suffix_cons x post).trans hx) ?_
    omega
  have := (hh.suffix hx).version_lt (hpost.subset hmem) rfl
  omega

end Log

/-! ## Sites over time -/

/-- What a site may turn into. -/
structure Carries (s s' : Site ι cfg) : Prop where
  central : s.central.Reaches s'.central
  log : s.central.shared.writes <:+ s'.central.shared.writes
  clusters : ∀ j, Evolves (s.clusters j) (s'.clusters j)

theorem Carries.refl (s : Site ι cfg) : Carries s s :=
  ⟨Relation.ReflTransGen.refl, List.suffix_refl _, fun _ => Evolves.refl _⟩

theorem Carries.trans (h : Carries s s') (h' : Carries s' s'') : Carries s s'' :=
  ⟨h.central.trans h'.central, h.log.trans h'.log, fun j => (h.clusters j).trans (h'.clusters j)⟩

/-- The record of `l` has nothing left to clean up: no registered Pod is
alive, and the tenure, if there was one, is over. -/
structure Settled (j : ι) (s : Site ι cfg) (l : BerthLease) (w : WorkloadStatus) : Prop where
  calm : w.phase ≠ .active
  dead : ∀ x ∈ w.pods, Dead (s.clusters j) x.uid
  retired : cfg.careful = true → w.token ≠ 0 →
    RetiredBy s.central.shared.writes l.central w.holder w.token s.log

/-- What holds of the workload record of every version of a lease. -/
structure RecordOk (F : Fleet ι) (j : ι) (s : Site ι cfg) (l : BerthLease) (w : WorkloadStatus) :
    Prop where
  idle : w.phase = .idle → w.token = 0 ∧ w.pods = []
  length : w.pods.length ≤ maxPermittedPods
  pinned : ∀ x ∈ w.pods, Pinned (s.clusters j) l.ns l.uid x.uid
  aimed : w.targetUID ≠ "" → Requested (s.clusters j) l w.targetUID
  active : w.phase = .active → finalizerName ∈ l.finalizers ∧ w.leaseName = l.spec.leaseName ∧
    w.holder = (F.config j).holderFor l ∧
    Grant s.central.shared.writes 0 l.central w.holder w.token w.deadline
  stopping : w.phase = .stopping → w.token ≠ 0 → w.leaseName = l.spec.leaseName ∧
    w.holder = (F.config j).holderFor l ∧
    Existed s.central.shared.writes l.central w.holder w.token
  settled : finalizerName ∉ l.finalizers → Settled j s l w

/-- What holds of every version of a lease. -/
structure VersionOk (F : Fleet ι) (j : ι) (s : Site ι cfg) (l : BerthLease) : Prop where
  bare : l.spec.target = none → l.status.workload = none
  unset : l.status.workload = none → l.spec.target.isSome = true → l.status.fencingToken = 0
  record : ∀ w, l.status.workload = some w → RecordOk F j s l w

theorem Settled.carries {w : WorkloadStatus} (h : Settled j s l w) (hc : Carries s s') :
    Settled j s' l w where
  calm := h.calm
  dead := fun x hx => (h.dead x hx).evolves (hc.clusters j)
  retired := fun hcareful ht => (h.retired hcareful ht).mono hc.log hc.log.length_le

theorem RecordOk.carries {w : WorkloadStatus} (h : RecordOk F j s l w) (hc : Carries s s') :
    RecordOk F j s' l w where
  idle := h.idle
  length := h.length
  pinned := fun x hx => (h.pinned x hx).evolves (hc.clusters j)
  aimed := fun hne => (h.aimed hne).evolves (hc.clusters j)
  active := fun hp => by
    obtain ⟨hfin, hname, hholder, hgrant⟩ := h.active hp
    exact ⟨hfin, hname, hholder, hgrant.mono hc.log⟩
  stopping := fun hp ht => by
    obtain ⟨hname, hholder, hex⟩ := h.stopping hp ht
    exact ⟨hname, hholder, hex.mono hc.log⟩
  settled := fun hfin => (h.settled hfin).carries hc

theorem VersionOk.carries (h : VersionOk F j s l) (hc : Carries s s') : VersionOk F j s' l :=
  ⟨h.bare, h.unset, fun w hw => (h.record w hw).carries hc⟩

/-! ## How a persisted status may change -/

/-- The status `st` may replace that of version `v`. -/
inductive Move (F : Fleet ι) (j : ι) (s : Site ι cfg) (v : Version) : BerthLeaseStatus → Prop where
  /-- conditions and other reports -/
  | keep {st : BerthLeaseStatus} (hw : st.workload = v.lease.status.workload)
      (hf : v.lease.spec.target.isSome = true →
        st.fencingToken = v.lease.status.fencingToken) : Move F j s v st
  /-- admission records a new target -/
  | record {st : BerthLeaseStatus} {uid : String} (hidle : v.lease.phase = .idle)
      (hpods : v.lease.pods = []) (htarget : v.lease.spec.target.isSome = true)
      (haim : Requested (s.clusters j) v.lease uid)
      (hw : st.workload = some { targetUID := uid }) : Move F j s v st
  /-- a pass activates or renews with a grant it got after it read `v`, and
  forgets Pods that are dead -/
  | activate {st : BerthLeaseStatus} {w : WorkloadStatus} {pods : List PermittedPod} {tok : Int}
      {deadline : Option Time} (hb : v.lease.status.workload = some w)
      (hphase : w.phase ≠ .stopping) (htok : w.phase = .active → w.token = tok)
      (hpods : pods.Sublist w.pods)
      (hdead : ∀ x ∈ w.pods, x ∉ pods → Dead (s.clusters j) x.uid)
      (hfin : finalizerName ∈ v.lease.finalizers)
      (hgrant : Grant s.central.shared.writes v.born v.lease.central
        ((F.config j).holderFor v.lease) tok deadline)
      (hw : st.workload = some
        { w with
          phase := .active, leaseName := v.lease.spec.leaseName
          holder := (F.config j).holderFor v.lease, token := tok, deadline := deadline
          pods := pods }) : Move F j s v st
  /-- a Pod is registered -/
  | register {st : BerthLeaseStatus} {w : WorkloadStatus} {x : PermittedPod}
      (hb : v.lease.status.workload = some w) (hphase : w.phase = .active)
      (hlen : w.pods.length < maxPermittedPods)
      (hpin : Pinned (s.clusters j) v.lease.ns v.lease.uid x.uid)
      (hw : st.workload = some { w with pods := w.pods ++ [x] }) : Move F j s v st
  /-- activation is closed -/
  | stop {st : BerthLeaseStatus} (hphase : v.lease.phase ≠ .stopping)
      (htarget : v.lease.spec.target.isSome = true)
      (hw : st.workload = some { Reconciler.stopRecord v.lease with phase := .stopping }) :
      Move F j s v st
  /-- cleanup is complete -/
  | clear {st : BerthLeaseStatus} {w : WorkloadStatus} (hb : v.lease.status.workload = some w)
      (hphase : w.phase = .stopping) (hset : Settled j s v.lease w)
      (hw : st.workload = some (Reconciler.clearedRecord w)) : Move F j s v st

theorem Move.carries {v : Version} {st : BerthLeaseStatus} (h : Move F j s v st)
    (hc : Carries s s') : Move F j s' v st := by
  cases h with
  | keep hw hf => exact .keep hw hf
  | record hidle hpods htarget haim hw =>
    exact .record hidle hpods htarget (haim.evolves (hc.clusters j)) hw
  | activate hb hphase htok hpods hdead hfin hgrant hw =>
    exact .activate hb hphase htok hpods
      (fun x hx hn => (hdead x hx hn).evolves (hc.clusters j)) hfin (hgrant.mono hc.log) hw
  | register hb hphase hlen hpin hw =>
    exact .register hb hphase hlen (hpin.evolves (hc.clusters j)) hw
  | stop hphase htarget hw => exact .stop hphase htarget hw
  | clear hb hphase hset hw => exact .clear hb hphase (hset.carries hc) hw

/-! ### Records -/

section Records

variable {w : WorkloadStatus}

theorem phase_some (h : l.status.workload = some w) : l.phase = w.phase := by
  simp [BerthLease.phase, h]

theorem token_some (h : l.status.workload = some w) : l.token = w.token := by
  simp [BerthLease.token, h]

theorem holder_some (h : l.status.workload = some w) : l.holder = w.holder := by
  simp [BerthLease.holder, h]

theorem pods_some (h : l.status.workload = some w) : l.pods = w.pods := by
  simp [BerthLease.pods, h]

theorem pods_none (h : l.status.workload = none) : l.pods = [] := by
  simp [BerthLease.pods, h]

theorem phase_none (h : l.status.workload = none) : l.phase = .idle := by
  simp [BerthLease.phase, h]

theorem workload_of_phase (h : l.phase ≠ .idle) : ∃ w, l.status.workload = some w := by
  cases hw : l.status.workload with
  | none => exact absurd (phase_none hw) h
  | some w => exact ⟨w, rfl⟩

theorem truncSecond_le (t : Time) : truncSecond t ≤ t :=
  Int.ediv_mul_le t (by decide)

theorem stored_workload {st : BerthLeaseStatus} (h : st.workload = some w) :
    (l.withStatus st).status.workload =
      some { w with deadline := w.deadline.map truncSecond } := by
  simp [BerthLease.withStatus, BerthLeaseStatus.stored, h]

theorem stored_workload_none {st : BerthLeaseStatus} (h : st.workload = none) :
    (l.withStatus st).status.workload = none := by
  simp [BerthLease.withStatus, BerthLeaseStatus.stored, h]

section Same

-- a status with the record that the lease has
variable {st : BerthLeaseStatus} (h : st.workload = l.status.workload)
include h

theorem phase_same : (l.withStatus st).phase = l.phase := by
  simp [BerthLease.phase, BerthLease.withStatus, BerthLeaseStatus.stored, h, Function.comp_def]

theorem token_same : (l.withStatus st).token = l.token := by
  simp [BerthLease.token, BerthLease.withStatus, BerthLeaseStatus.stored, h, Function.comp_def]

theorem holder_same : (l.withStatus st).holder = l.holder := by
  simp [BerthLease.holder, BerthLease.withStatus, BerthLeaseStatus.stored, h, Function.comp_def]

theorem pods_same : (l.withStatus st).pods = l.pods := by
  simp [BerthLease.pods, BerthLease.withStatus, BerthLeaseStatus.stored, h, Function.comp_def]

end Same

end Records

/-- An earlier deadline is granted by the same write. -/
theorem Grant.trunc {ws : List (Write Server.Call)} {n m : Nat} {k : Key} {h : String} {t : Int}
    {d : Option Time} (hg : Grant ws n k h t d) (hn : m ≤ n) :
    Grant ws m k h t (d.map truncSecond) := by
  obtain ⟨hne, x, post, hx, hlen, hk, hheld, hd⟩ := hg
  refine ⟨hne, x, post, hx, Nat.le_trans hn hlen, hk, hheld, fun e he => ?_⟩
  obtain ⟨d', hd', rfl⟩ := Option.map_eq_some_iff.mp he
  exact Int.le_trans (truncSecond_le d') (hd d' hd')

/-! ### What a move does -/

section Moves

variable {v : Version} {st : BerthLeaseStatus} {w : WorkloadStatus}

/-- A stored record is its record with the deadline in whole seconds. -/
theorem RecordOk.trunc (h : RecordOk F j s l w) :
    RecordOk F j s l { w with deadline := w.deadline.map truncSecond } where
  idle := h.idle
  length := h.length
  pinned := h.pinned
  aimed := h.aimed
  active := fun hp => by
    obtain ⟨hfin, hname, hholder, hgrant⟩ := h.active hp
    exact ⟨hfin, hname, hholder, hgrant.trunc (Nat.le_refl 0)⟩
  stopping := h.stopping
  settled := fun hfin => ⟨(h.settled hfin).calm, (h.settled hfin).dead, (h.settled hfin).retired⟩

/-- The version that a status write with the record `w` makes of `l`. -/
theorem VersionOk.of_record (htarget : l.spec.target.isSome = true) (hw : st.workload = some w)
    (h : RecordOk F j s l w) : VersionOk F j s (l.withStatus st) where
  bare := fun hn => by
    have hnone : l.spec.target = none := hn
    rw [hnone] at htarget
    cases htarget
  unset := fun hn => by
    rw [stored_workload hw] at hn
    cases hn
  record := fun w' hw' => by
    rw [stored_workload hw, Option.some.injEq] at hw'
    subst hw'
    have h' := h.trunc
    exact ⟨h'.idle, h'.length, h'.pinned, fun hne => (h'.aimed hne).lease rfl rfl rfl rfl,
      h'.active, h'.stopping, fun hfin =>
      ⟨(h'.settled hfin).calm, (h'.settled hfin).dead, (h'.settled hfin).retired⟩⟩

theorem VersionOk.target (h : VersionOk F j s l) (hw : l.status.workload = some w) :
    l.spec.target.isSome = true := by
  cases ht : l.spec.target with
  | none =>
    rw [h.bare ht] at hw
    cases hw
  | some t => rfl

/-- The record that closes activation. -/
theorem RecordOk.stopRecord (h : VersionOk F j s l) (htarget : l.spec.target.isSome = true) :
    RecordOk F j s l { Reconciler.stopRecord l with phase := .stopping } := by
  unfold Reconciler.stopRecord
  cases hw : l.status.workload with
  | none =>
    have hz := h.unset hw htarget
    refine ⟨(nomatch ·), Nat.zero_le _, fun _ => (nomatch ·), fun hne => absurd rfl hne,
      (nomatch ·), fun _ ht => absurd hz ht, fun _ => ?_⟩
    exact ⟨(nomatch ·), fun _ => (nomatch ·), fun _ ht => absurd hz ht⟩
  | some w =>
    have hrec := h.record w hw
    refine ⟨(nomatch ·), hrec.length, hrec.pinned, hrec.aimed, (nomatch ·), fun _ ht => ?_,
      fun hfin => ?_⟩
    · cases hp : w.phase with
      | idle => exact absurd (hrec.idle hp).1 ht
      | active =>
        obtain ⟨_, hname, hholder, hgrant⟩ := hrec.active hp
        exact ⟨hname, hholder, hgrant.existed⟩
      | stopping => exact hrec.stopping hp ht
    · exact ⟨(nomatch ·), (hrec.settled hfin).dead, (hrec.settled hfin).retired⟩

/-- A move keeps what holds of every version. -/
theorem Move.versionOk (h : Move F j s v st) (hv : VersionOk F j s v.lease) :
    VersionOk F j s (v.lease.withStatus st) := by
  cases h with
  | keep hw hf =>
    cases hwork : v.lease.status.workload with
    | none =>
      rw [hwork] at hw
      refine ⟨fun _ => stored_workload_none hw, fun _ ht => ?_, fun w' hw' => ?_⟩
      · exact (hf ht).trans (hv.unset hwork ht)
      · rw [stored_workload_none hw] at hw'
        cases hw'
    | some w =>
      rw [hwork] at hw
      exact VersionOk.of_record (hv.target hwork) hw (hv.record w hwork)
  | record hidle hpods htarget haim hw =>
    refine VersionOk.of_record htarget hw
      ⟨fun _ => ⟨rfl, rfl⟩, Nat.zero_le _, fun _ => (nomatch ·), fun _ => haim, (nomatch ·),
        (nomatch ·), fun _ => ?_⟩
    exact ⟨(nomatch ·), fun _ => (nomatch ·), fun _ ht => absurd rfl ht⟩
  | @activate w pods tok deadline hb hphase htok hpods hdead hfin hgrant hw =>
    have hrec := hv.record w hb
    refine VersionOk.of_record (hv.target hb) hw
      ⟨(nomatch ·), Nat.le_trans hpods.length_le hrec.length,
        fun x hx => hrec.pinned x (hpods.subset hx), hrec.aimed,
        fun _ => ⟨hfin, rfl, rfl, ?_⟩, (nomatch ·),
        fun hn => absurd hfin hn⟩
    obtain ⟨hne, x, post, hx, _, hrest⟩ := hgrant
    exact ⟨hne, x, post, hx, Nat.zero_le _, hrest⟩
  | @register w x hb hphase hlen hpin hw =>
    have hrec := hv.record w hb
    refine VersionOk.of_record (hv.target hb) hw
      ⟨fun hp => ?_, ?_, fun y hy => ?_, hrec.aimed, fun _ => hrec.active hphase, fun hp => ?_,
        fun hn => ?_⟩
    · rw [hphase] at hp
      cases hp
    · rw [List.length_append, List.length_singleton]
      exact hlen
    · rcases List.mem_append.mp hy with hy | hy
      · exact hrec.pinned y hy
      · rw [List.mem_singleton.mp hy]
        exact hpin
    · rw [hphase] at hp
      cases hp
    · exact absurd (hrec.active hphase).1 hn
  | stop hphase htarget hw =>
    exact VersionOk.of_record htarget hw (RecordOk.stopRecord hv htarget)
  | @clear w hb hphase hset hw =>
    refine VersionOk.of_record (hv.target hb) hw
      ⟨fun _ => ⟨rfl, rfl⟩, Nat.zero_le _, fun _ => (nomatch ·), (hv.record w hb).aimed, (nomatch ·),
        (nomatch ·), fun _ => ?_⟩
    exact ⟨(nomatch ·), fun _ => (nomatch ·), fun _ ht => absurd rfl ht⟩

/-- A move forgets only Pods that are dead. -/
theorem Move.pods_kept (h : Move F j s v st) {x : PermittedPod} (hx : x ∈ v.lease.pods) :
    x ∈ (v.lease.withStatus st).pods ∨ Dead (s.clusters j) x.uid := by
  cases h with
  | keep hw hf =>
    rw [pods_same hw]
    exact .inl hx
  | record hidle hpods htarget haim hw =>
    rw [hpods] at hx
    cases hx
  | @activate w pods tok deadline hb hphase htok hpods hdead hfin hgrant hw =>
    rw [pods_some hb] at hx
    rw [pods_some (stored_workload hw)]
    by_cases hmem : x ∈ pods
    · exact .inl hmem
    · exact .inr (hdead x hx hmem)
  | register hb hphase hlen hpin hw =>
    rw [pods_some hb] at hx
    rw [pods_some (stored_workload hw)]
    exact .inl (List.mem_append_left _ hx)
  | stop hphase htarget hw =>
    rw [pods_some (stored_workload hw)]
    obtain ⟨w, hwork⟩ : ∃ w, v.lease.status.workload = some w := by
      cases hwork : v.lease.status.workload with
      | none =>
        rw [pods_none hwork] at hx
        cases hx
      | some w => exact ⟨w, rfl⟩
    rw [pods_some hwork] at hx
    exact .inl (by simpa [Reconciler.stopRecord, hwork] using hx)
  | clear hb hphase hset hw =>
    rw [pods_some hb] at hx
    exact .inr (hset.dead x hx)

/-- A move that does not activate registers nothing. -/
theorem Move.pods_subset (h : Move F j s v st)
    (hcalm : (v.lease.withStatus st).phase ≠ .active) :
    (v.lease.withStatus st).pods ⊆ v.lease.pods := by
  cases h with
  | keep hw hf =>
    rw [pods_same hw]
    exact List.Subset.refl _
  | record hidle hpods htarget haim hw =>
    rw [pods_some (stored_workload hw)]
    exact List.nil_subset _
  | activate hb hphase htok hpods hdead hfin hgrant hw =>
    rw [phase_some (stored_workload hw)] at hcalm
    exact absurd rfl hcalm
  | register hb hphase hlen hpin hw =>
    rw [phase_some (stored_workload hw)] at hcalm
    exact absurd hphase hcalm
  | stop hphase htarget hw =>
    rw [pods_some (stored_workload hw)]
    cases hwork : v.lease.status.workload with
    | none => simp [Reconciler.stopRecord, hwork]
    | some w =>
      rw [pods_some hwork]
      simp [Reconciler.stopRecord, hwork]
  | clear hb hphase hset hw =>
    rw [pods_some (stored_workload hw)]
    exact List.nil_subset _

/-- Only a pass that got a grant activates a lease that was not active. -/
theorem Move.active_cases (h : Move F j s v st)
    (hact : (v.lease.withStatus st).phase = .active) :
    v.lease.phase ≠ .stopping := by
  cases h with
  | keep hw hf =>
    rw [phase_same hw] at hact
    rw [hact]
    exact (nomatch ·)
  | record hidle hpods htarget haim hw =>
    rw [hidle]
    exact (nomatch ·)
  | activate hb hphase htok hpods hdead hfin hgrant hw =>
    rw [phase_some hb]
    exact hphase
  | register hb hphase hlen hpin hw =>
    rw [phase_some hb, hphase]
    exact (nomatch ·)
  | stop hphase htarget hw => exact hphase
  | clear hb hphase hset hw =>
    rw [phase_some (stored_workload hw)] at hact
    cases hact

end Moves

end Berth.Operator
