/-
Berth.Operator.Steps — what happens without a thread.

A step of the environment keeps the invariant, is `Calm` for every thread
and `Tidy` for every lease.

`Sealed c k rv ps` is what a pass that stops the lease `k` relies on: from
revision `rv` on the lease is not active and registers no Pod outside
`ps`, and no write under way could change that. Only a pass over the lease
itself breaks a seal, by activating it.
-/
import Berth.Operator.SiteTheorems

namespace Berth.Operator

open Berth.Interleave Berth.Lease Berth.Api Berth.Client

variable {ι : Type} {cfg : Server.Config} {F : Fleet ι} {j : ι}
variable {s s' s'' : Site ι cfg} {c c' : Cluster} {l m cur : BerthLease} {v : Version}

/-! ## Seals -/

/-- The write asks for an activation. -/
def LeaseWrite.opens : LeaseWrite → Bool
  | .status l => l.phase == .active
  | .whole _ => false

structure Sealed (c : Cluster) (k : Key) (rv : Nat) (ps : List PermittedPod) : Prop where
  seen : ∃ v ∈ c.versions, v.lease.key = k ∧ v.lease.resourceVersion = rv
  calm : ∀ v ∈ c.versions, v.lease.key = k → rv ≤ v.lease.resourceVersion →
    v.lease.phase ≠ .active ∧ v.lease.pods ⊆ ps
  late : ∀ w ∈ c.late, w.opens = true → w.lease.key = k → w.lease.resourceVersion < rv

section Sealed

variable {k : Key} {rv : Nat} {ps : List PermittedPod}

theorem withStatus_phase (v l : BerthLease) : (v.withStatus l.status).phase = l.phase := by
  cases h : l.status.workload with
  | none => rw [phase_none (stored_workload_none h), phase_none h]
  | some w => rw [phase_some (stored_workload h), phase_some h]

theorem Sealed.of_eq (h : Sealed c k rv ps) (hv : c'.versions = c.versions)
    (hl : ∀ w ∈ c'.late, w.opens = true → w.lease.key = k → w.lease.resourceVersion < rv) :
    Sealed c' k rv ps where
  seen := by rw [hv]; exact h.seen
  calm := by rw [hv]; exact h.calm
  late := hl

/-- The stored lease of that name is at `rv` or later. -/
theorem Sealed.le_current (h : Sealed c k rv ps) (hwf : Wf c) (hl : l ∈ c.leases)
    (hkey : l.key = k) : rv ≤ l.resourceVersion := by
  obtain ⟨v, hv, hvk, rfl⟩ := h.seen
  exact hwf.newest l hl v hv (hvk.trans hkey.symm)

/-- So it is not active and has no other Pods. -/
theorem Sealed.current (h : Sealed c k rv ps) (hwf : Wf c) (hl : l ∈ c.leases)
    (hkey : l.key = k) : l.phase ≠ .active ∧ l.pods ⊆ ps := by
  obtain ⟨n, hn⟩ := hwf.current l hl
  exact h.calm _ hn hkey (h.le_current hwf hl hkey)

/-- A stored lease that is stopping is sealed. -/
theorem Sealed.of_stopping (hok : ClusterOk F j s) (hl : l ∈ (s.clusters j).leases)
    (hstop : l.phase = .stopping) : Sealed (s.clusters j) l.key l.resourceVersion l.pods := by
  obtain ⟨n, hn⟩ := hok.wf.current l hl
  -- nothing of that name is newer
  have hlast : ∀ v ∈ (s.clusters j).versions, v.lease.key = l.key →
      l.resourceVersion ≤ v.lease.resourceVersion → v.lease = l := by
    intro v hv hkey hle
    have hge := hok.wf.newest l hl v hv hkey
    rw [hok.wf.eq_of_rv hv hn (Nat.le_antisymm hge hle)]
  refine ⟨⟨_, hn, rfl, rfl⟩, fun v hv hkey hle => ?_, fun w hw hopen hkey => ?_⟩
  · rw [hlast v hv hkey hle, hstop]
    exact ⟨(nomatch ·), List.Subset.refl _⟩
  · obtain ⟨v, hv, hvk, hvrv, _, hmove⟩ := hok.late w hw
    by_contra hlt
    have hvl := hlast v hv (hvk.trans hkey) (hvrv ▸ Nat.le_of_not_lt hlt)
    cases w with
    | whole l' => cases hopen
    | status l' =>
      have hact : (v.lease.withStatus l'.status).phase = .active := by
        rw [withStatus_phase]
        exact eq_of_beq hopen
      exact absurd (hvl ▸ hstop) (Move.active_cases hmove hact)

theorem Sealed.replaceLease {n : Nat} (h : Sealed c k rv ps) (hwf : Wf c) (hcur : cur ∈ c.leases)
    (hkey : l.key = cur.key) (hcalm : cur.key = k → rv ≤ cur.resourceVersion →
      cur.phase ≠ .active → l.phase ≠ .active ∧ l.pods ⊆ cur.pods) :
    Sealed (c.replaceLease n cur l).2 k rv ps := by
  unfold Cluster.replaceLease
  split
  · exact h
  split
  · exact h.of_eq rfl h.late
  refine ⟨?_, fun v hv hvk hle => ?_, h.late⟩
  · obtain ⟨v, hv, hrest⟩ := h.seen
    exact ⟨v, List.mem_cons_of_mem _ hv, hrest⟩
  · rcases List.mem_cons.mp hv with rfl | hv
    · have hck : cur.key = k := hkey.symm.trans hvk
      obtain ⟨hact, hpods⟩ := h.current hwf hcur hck
      obtain ⟨hact', hpods'⟩ := hcalm hck (h.le_current hwf hcur hck) hact
      exact ⟨hact', fun x hx => hpods (hpods' hx)⟩
    · exact h.calm v hv hvk hle

/-- A write that does not activate a lease keeps its seal. -/
theorem Sealed.applyWrite {n : Nat} {w : LeaseWrite} (h : Sealed (s.clusters j) k rv ps)
    (hok : ClusterOk F j s) (hw : WriteOk F j s w)
    (hopen : w.opens = true → w.lease.key = k → w.lease.resourceVersion < rv) :
    Sealed ((s.clusters j).applyWrite n w).2 k rv ps := by
  unfold Cluster.applyWrite
  split
  · exact h
  rename_i cur hcur
  dsimp only
  split
  · exact h
  rename_i hrv
  obtain ⟨v, hv, hvk, hvrv, _, hf⟩ := hw.follows hok
  have hrv' : cur.resourceVersion = v.lease.resourceVersion :=
    (not_not.mp hrv).trans hvrv.symm
  obtain ⟨rfl, hmem⟩ := hok.wf.cas hcur hv hrv'
  refine h.replaceLease hok.wf hmem hf.same.key fun hkey hle hact => ?_
  have hact' : (w.over v.lease).phase ≠ .active := by
    cases w with
    | whole l' => exact hact
    | status l' =>
      intro hp
      have hp : (v.lease.withStatus l'.status).phase = .active := hp
      rw [withStatus_phase] at hp
      have hlt := hopen (by rw [LeaseWrite.opens, hp]; rfl) (hvk.symm.trans hkey)
      rw [← hvrv] at hlt
      exact absurd hle (Nat.not_le.mpr hlt)
  exact ⟨hact', hf.calm hact'⟩

end Sealed

/-! ## Calm steps -/

/-- The step breaks no seal, gives no lease to another pass and notes
nothing. -/
structure Calm (s s' : Site ι cfg) : Prop where
  carries : Carries s s'
  running : ∀ j k n, (s'.clusters j).running k = some n → (s.clusters j).running k = some n
  journal : ∀ j, (s'.clusters j).journal = (s.clusters j).journal
  sealed : ∀ j k rv ps, Sealed (s.clusters j) k rv ps → Sealed (s'.clusters j) k rv ps

theorem Calm.refl (s : Site ι cfg) : Calm s s :=
  ⟨Carries.refl s, fun _ _ _ h => h, fun _ => rfl, fun _ _ _ _ h => h⟩

theorem Calm.trans (h : Calm s s') (h' : Calm s' s'') : Calm s s'' where
  carries := h.carries.trans h'.carries
  running := fun j k n hn => h.running j k n (h'.running j k n hn)
  journal := fun j => (h'.journal j).trans (h.journal j)
  sealed := fun j k rv ps hs => h'.sealed j k rv ps (h.sealed j k rv ps hs)

/-- A change of one cluster. -/
theorem Calm.change (hb : Becomes s s' j c') (he : Evolves (s.clusters j) c')
    (hrun : ∀ k n, c'.running k = some n → (s.clusters j).running k = some n)
    (hj : c'.journal = (s.clusters j).journal)
    (hseal : ∀ k rv ps, Sealed (s.clusters j) k rv ps → Sealed c' k rv ps) : Calm s s' := by
  -- the other clusters stay as they are
  refine ⟨hb.carries he, fun i k n hn => ?_, fun i => ?_, fun i k rv ps hs => ?_⟩
  all_goals by_cases hi : i = j
  · subst hi
    exact hrun k n (hb.here ▸ hn)
  · exact hb.others i hi ▸ hn
  · subst hi
    rw [hb.here, hj]
  · rw [hb.others i hi]
  · subst hi
    exact hb.here ▸ hseal k rv ps hs
  · exact (hb.others i hi).symm ▸ hs

/-- A change of the fields that no lease is in. -/
theorem Calm.alike (hb : Becomes s s' j c') (ha : Alike (s.clusters j) c')
    (hrun : ∀ k n, c'.running k = some n → (s.clusters j).running k = some n)
    (hj : c'.journal = (s.clusters j).journal) (hl : c'.late = (s.clusters j).late) :
    Calm s s' :=
  Calm.change hb ha.evolves hrun hj fun _ _ _ h => h.of_eq ha.versions (by rw [hl]; exact h.late)

section Writes

variable {n : Nat}

theorem replaceLease_running : (c.replaceLease n cur l).2.running = c.running := by
  unfold Cluster.replaceLease
  split
  · rfl
  · split <;> rfl

theorem replaceLease_journal : (c.replaceLease n cur l).2.journal = c.journal := by
  unfold Cluster.replaceLease
  split
  · rfl
  · split <;> rfl

theorem Evolves.replaceLease (c : Cluster) (n : Nat) (cur l : BerthLease) :
    Evolves c (c.replaceLease n cur l).2 := by
  unfold Cluster.replaceLease
  split
  · exact Evolves.refl c
  · split
    · exact Evolves.dropLease c _
    · exact Evolves.putLease c _ _

/-- A lease write is a change of the stored lease, or nothing. -/
theorem applyWrite_cases (c : Cluster) (n : Nat) (w : LeaseWrite) :
    (c.applyWrite n w).2 = c ∨
      ∃ cur, (c.applyWrite n w).2 = (c.replaceLease n cur (w.over cur)).2 := by
  unfold Cluster.applyWrite
  split
  · exact .inl rfl
  rename_i cur _
  dsimp only
  split
  · exact .inl rfl
  · exact .inr ⟨cur, rfl⟩

theorem applyWrite_running (w : LeaseWrite) : (c.applyWrite n w).2.running = c.running := by
  rcases applyWrite_cases c n w with h | ⟨cur, h⟩
  · rw [h]
  · rw [h, replaceLease_running]

theorem applyWrite_journal (w : LeaseWrite) : (c.applyWrite n w).2.journal = c.journal := by
  rcases applyWrite_cases c n w with h | ⟨cur, h⟩
  · rw [h]
  · rw [h, replaceLease_journal]

theorem Evolves.applyWrite (c : Cluster) (n : Nat) (w : LeaseWrite) :
    Evolves c (c.applyWrite n w).2 := by
  rcases applyWrite_cases c n w with h | ⟨cur, h⟩
  · rw [h]
    exact Evolves.refl c
  · rw [h]
    exact Evolves.replaceLease c n cur _

end Writes

/-! ## Events in a cluster -/

/-- What a step that no pass makes has to be. -/
structure StepOk (F : Fleet ι) (s s' : Site ι cfg) : Prop where
  ok : s'.Ok F
  calm : Calm s s'
  tidy : ∀ k, Tidy (s.clusters k) (s'.clusters k)

theorem Becomes.tidy (hb : Becomes s s' j c') (h : Tidy (s.clusters j) c') (k : ι) :
    Tidy (s.clusters k) (s'.clusters k) := by
  by_cases hk : k = j
  · subst hk
    rw [hb.here]
    exact h
  · exact Tidy.of_eq (by rw [hb.others k hk])

/-- A write that is under way arrives. -/
theorem land_ok {w : LeaseWrite} (h : s.Ok F)
    (hb : Becomes s s' j ((s.clusters j).applyWrite s.log w).2) (hw : w ∈ (s.clusters j).late) :
    StepOk F s s' := by
  have hok := h.clusters j
  obtain ⟨hok', htidy⟩ := h.applyWrite hb (hok.late w hw)
  refine ⟨hok', Calm.change hb (Evolves.applyWrite _ _ _) ?_ (applyWrite_journal w)
    fun k rv ps hs => hs.applyWrite hok (hok.late w hw) (hs.late w hw), hb.tidy htidy⟩
  intro k n hn
  rw [applyWrite_running] at hn
  exact hn

/-- A user changes a lease. -/
theorem edit_ok (h : s.Ok F) (hcur : (s.clusters j).lease? m.key = some cur)
    (hb : Becomes s s' j ((s.clusters j).replaceLease s.log cur l).2)
    (hsame : SameLease cur l) (hst : l.status = cur.status)
    (hfin : finalizerName ∈ cur.finalizers → finalizerName ∈ l.finalizers) :
    StepOk F s s' := by
  have hok := h.clusters j
  obtain ⟨hmem, _⟩ := lease?_some hcur
  obtain ⟨n, hn⟩ := hok.wf.current cur hmem
  have hf := Follows.of_edit (hok.version _ hn) hsame hst hfin
  have hphase : l.phase = cur.phase := by rw [BerthLease.phase, BerthLease.phase, hst]
  have hpods : l.pods = cur.pods := by rw [BerthLease.pods, BerthLease.pods, hst]
  refine ⟨h.replaceLease hb hn hmem hf, Calm.change hb (Evolves.replaceLease _ _ _ _) ?_
    replaceLease_journal ?_, hb.tidy (Tidy.replaceLease hok.wf hmem hf ?_)⟩
  · intro k i hi
    rw [replaceLease_running] at hi
    exact hi
  · intro k rv ps hs
    refine hs.replaceLease hok.wf hmem hsame.key fun _ _ hact => ?_
    rw [hphase, hpods]
    exact ⟨hact, List.Subset.refl _⟩
  · rintro ⟨hne, hidle | ⟨hin, hout⟩⟩
    · exact absurd (hphase.symm.trans hidle) hne
    · exact absurd (hfin hin) hout

/-- A user creates a lease. -/
theorem create_ok [DecidableEq ι] (h : s.Ok F) (hmay : F.mayCreate j l = true)
    (hfree : ((s.clusters j).lease? l.key) = none) (huid : l.uid ≠ "")
    (hnew : l.uid ∉ (s.clusters j).uids)
    (hb : Becomes s s' j
      (({ s.clusters j with uids := l.uid :: (s.clusters j).uids }).putLease s.log
        { l with generation := 1, deletionTimestamp := none, status := {} })) :
    StepOk F s s' := by
  have hok := h.clusters j
  -- first the UID is taken, then the lease is stored
  have hb₁ : Becomes s (s.set j { s.clusters j with uids := l.uid :: (s.clusters j).uids }) j
      { s.clusters j with uids := l.uid :: (s.clusters j).uids } :=
    ⟨rfl, Function.update_self _ _ _, fun k hk => Function.update_of_ne hk _ _⟩
  have ha : Alike (s.clusters j) { s.clusters j with uids := l.uid :: (s.clusters j).uids } :=
    ⟨rfl, rfl, rfl, List.subset_cons_self _ _, rfl, rfl, Grows.refl _, List.suffix_refl _⟩
  have hok₁ := h.alike hb₁ ha hok.late hok.fence
    ((h.ledgers j).of_eq ha.evolves rfl rfl rfl rfl)
  have hb₂ : Becomes (s.set j { s.clusters j with uids := l.uid :: (s.clusters j).uids }) s' j
      (((s.set j { s.clusters j with uids := l.uid :: (s.clusters j).uids }).clusters j).putLease
        s.log { l with generation := 1, deletionTimestamp := none, status := {} }) := by
    refine ⟨hb.central, ?_, fun k hk => (hb.others k hk).trans (hb₁.others k hk).symm⟩
    rw [hb.here, hb₁.here]
  have hnone := lease?_none hfree
  refine ⟨hok₁.createLease hb₂ (fun C hc => C.leases j l hmay hc) rfl rfl ?_ ?_ ?_, ?_, ?_⟩
  · rw [hb₁.here]
    exact ⟨huid, List.mem_cons_self⟩
  · rw [hb₁.here]
    intro v hv heq
    have heq : v.lease.uid = l.uid := heq
    exact hnew (heq ▸ (hok.wf.known v hv).2)
  · rw [hb₁.here]
    exact hnone
  · refine (Calm.alike hb₁ ha (fun _ _ hn => hn) rfl rfl).trans
      (Calm.change hb₂ (Evolves.putLease _ _ _) (fun _ _ hn => hn) rfl ?_)
    rw [hb₁.here]
    intro k rv ps hs
    refine ⟨?_, fun v hv hvk hle => ?_, hs.late⟩
    · obtain ⟨v, hv, hrest⟩ := hs.seen
      exact ⟨v, List.mem_cons_of_mem _ hv, hrest⟩
    · rcases List.mem_cons.mp hv with rfl | hv
      · exact ⟨(nomatch ·), List.nil_subset _⟩
      · exact hs.calm v hv hvk hle
  · exact hb.tidy fun m hm => .inl ⟨m, mem_putLease.mpr (.inr ⟨hm, hnone m hm⟩), Next.refl _ m⟩

/-- An object changes or appears. -/
theorem object_ok {q : Stored} (h : s.Ok F) (hb : Becomes s s' j ((s.clusters j).putObject q))
    (ho : Origin (s.clusters j) q) (hr : Rests (s.clusters j) q)
    (hnew : q.object.uid ∉ (s.clusters j).uids →
      ∃ o, Created (s.clusters j) o ∧ o.uid = q.object.uid ∧ Bears o q.object)
    (hst : F.honest = true → ∀ n, fenceOf q.object = some n → n ≤ (s.clusters j).revision)
    (hbound : q.admitted ≠ "" → q.object.annotation managedUID = q.admitted)
    (hungated : q.object.isPod = true → q.admitted ≠ "" → q.object.pod.gateOn = false →
      ∃ v ∈ (s.clusters j).versions, v.lease.uid = q.admitted ∧
        ⟨q.object.name, q.object.uid⟩ ∈ v.lease.pods) : StepOk F s s' := by
  have hwf := (h.clusters j).wf
  exact ⟨h.putObject hb ho hr ((h.ledgers j).putObject hwf ho hr hnew hst) hbound hungated,
    Calm.change hb (Evolves.putObject hwf ho hr) (fun _ _ hn => hn) rfl
      fun _ _ _ hs => hs.of_eq rfl hs.late, hb.tidy (Tidy.of_eq rfl)⟩

/-- A new state of an object that says nothing new about its activity, its
gate or its binding. -/
theorem touch_ok {k : ObjectKey} {q : Stored} {o : Object} (h : s.Ok F)
    (hq : (s.clusters j).object? k = some q)
    (hb : Becomes s s' j ((s.clusters j).putObject { q with object := o }))
    (hkey : o.key = q.object.key) (huid : o.uid = q.object.uid)
    (hmeta : o.metadata = q.object.metadata) (hgate : o.pod.gateOn = q.object.pod.gateOn)
    (hin : inactiveTarget o = inactiveTarget q.object)
    (hterm : q.object.terminal = true → o.terminal = true) : StepOk F s s' := by
  have hok := h.clusters j
  obtain ⟨hmem, _⟩ := object?_some hq
  have hname := ObjectKey.mk.inj hkey
  have hann : ∀ a, o.annotation a = q.object.annotation a := fun a => by
    rw [Object.annotation, Object.annotation, hmeta]
  refine object_ok h hb (.inl ⟨q, hmem, hkey, huid, rfl, fun _ => ⟨hann _, hann _⟩, hterm⟩)
    (Rests.of_inactive fun p hp hpu hpin => ?_) (fun hn => absurd ?_ hn) (fun hhon n hn => ?_)
    (fun hadm => (hann _).trans (hok.bound q hmem hadm)) fun hpod hadm hoff => ?_
  · have hpq : p = q := hok.wf.object_inj p hp q hmem (hpu.trans huid)
    rw [hpq] at hpin
    exact hin.trans hpin
  · show o.uid ∈ _
    rw [huid]
    exact hok.wf.object_uid q hmem
  · have hn : fenceOf q.object = some n := by
      rw [fenceOf, ← hann]
      exact hn
    exact Nat.le_trans (Nat.le_of_lt (((h.ledgers j).fences hhon).stored q hmem n hn))
      (hok.wf.object_top q hmem)
  · have hpod : o.isPod = true := hpod
    rw [Object.isPod, hname.1, hname.2.1] at hpod
    obtain ⟨v, hv, hvu, hx⟩ := hok.ungated q hmem hpod hadm (hgate.symm.trans hoff)
    refine ⟨v, hv, hvu, ?_⟩
    show (⟨o.name, o.uid⟩ : PermittedPod) ∈ v.lease.pods
    rw [hname.2.2.2, huid]
    exact hx

/-- An object goes. -/
theorem remove_ok {k : ObjectKey} (h : s.Ok F)
    (hb : Becomes s s' j ((s.clusters j).dropObject k)) : StepOk F s s' :=
  ⟨h.dropObject hb, Calm.change hb (Evolves.dropObject _ k) (fun _ _ hn => hn) rfl
    fun _ _ _ hs => hs.of_eq rfl hs.late, hb.tidy (Tidy.of_eq rfl)⟩

/-- Somebody submits a write. -/
theorem append_ok {p : Pending} {res : List String} (h : s.Ok F) (hp : p.answer = none)
    (hres : (s.clusters j).reserved ⊆ res) (hcre : ∀ o, p.write = .create o →
      o.uid ∉ (s.clusters j).uids ∧ o.uid ∉ (s.clusters j).reserved ∧ o.uid ∈ res)
    (hb : Becomes s s' j
      { s.clusters j with requests := (s.clusters j).requests ++ [p], reserved := res }) :
    StepOk F s s' := by
  have hok := h.clusters j
  have ha : Alike (s.clusters j)
      { s.clusters j with requests := (s.clusters j).requests ++ [p], reserved := res } :=
    ⟨rfl, rfl, rfl, List.Subset.refl _, rfl, rfl, grows_append _ _, List.suffix_refl _⟩
  exact ⟨h.alike hb ha hok.late hok.fence ((h.ledgers j).append hp hok.wf hres hcre),
    Calm.alike hb ha (fun _ _ hn => hn) rfl rfl, hb.tidy (Tidy.of_eq rfl)⟩

theorem editableTo_same {spec : BerthLeaseSpec} {g : Nat}
    (h : cur.spec.editableTo spec = true) :
    SameLease cur { cur with spec := spec, generation := g } := by
  simp only [BerthLeaseSpec.editableTo, Bool.and_eq_true, beq_iff_eq, decide_eq_true_eq] at h
  obtain ⟨⟨⟨hname, hholder⟩, htarget⟩, _⟩ := h
  exact ⟨rfl, rfl, rfl, hname, hholder, htarget⟩

/-- A step of the central server that is no release for a contender. -/
theorem serve_ok {a : Action (Server.machine cfg)} (h : s.Ok F) (hs : s.serve a = some s')
    (hcall : cfg.careful = true → ∀ call, a = .spawn call → ∀ (C : Contention F) j t,
      call.op = some (.release C.key (C.holder j) t) →
      ∃ v ∈ (s.clusters j).versions, v.lease.central = C.key ∧ StoppedUnder v.lease t) :
    StepOk F s s' := by
  obtain ⟨p, hp, rfl⟩ := Option.map_eq_some_iff.mp hs
  obtain ⟨hok, hc⟩ := h.serve hp hcall
  exact ⟨hok, ⟨hc, fun _ _ _ hn => hn, fun _ => rfl, fun _ _ _ _ hs => hs⟩, fun _ => Tidy.of_eq rfl⟩

variable [DecidableEq ι]

/-- Every event in a cluster. -/
theorem localStep_ok {e : LocalEnv} (h : s.Ok F) (hb : Becomes s s' j c')
    (he : localStep (F.mayCreate j) s.clock s.log (s.clusters j) e = some c') :
    StepOk F s s' := by
  cases e with
  | land w =>
    simp only [localStep] at he
    split at he
    · next hw =>
      cases he
      exact land_ok h hb hw
    · cases he
  | createLease l =>
    simp only [localStep] at he
    split at he
    · next hc =>
      cases he
      simp only [Bool.and_eq_true, Option.isNone_iff_eq_none, bne_iff_ne, ne_eq,
        Bool.not_eq_true', List.contains_eq_mem, decide_eq_false_iff_not] at hc
      obtain ⟨⟨⟨hmay, hfree⟩, huid⟩, hnew⟩ := hc
      exact create_ok h hmay hfree huid hnew hb
    · cases he
  | editLease key spec =>
    simp only [localStep, Cluster.changeLease, Option.bind_eq_some_iff, Option.map_eq_some_iff] at he
    obtain ⟨cur, hcur, l, hl, rfl⟩ := he
    split at hl
    · next hed =>
      cases hl
      have hk := (lease?_some hcur).2
      exact edit_ok (m := cur) h (hk ▸ hcur) hb (editableTo_same hed) rfl id
    · cases hl
  | setFinalizers key finalizers =>
    simp only [localStep, Cluster.changeLease, Option.bind_eq_some_iff, Option.map_eq_some_iff] at he
    obtain ⟨cur, hcur, l, hl, rfl⟩ := he
    split at hl
    · cases hl
    rename_i hfin
    cases hl
    have hk := (lease?_some hcur).2
    exact edit_ok (m := cur) h (hk ▸ hcur) hb ⟨rfl, rfl, rfl, rfl, rfl, rfl⟩ rfl
      fun hin => by_contra fun hout => hfin ⟨hin, hout⟩
  | deleteLease key =>
    simp only [localStep, Cluster.changeLease, Option.bind_eq_some_iff, Option.map_eq_some_iff] at he
    obtain ⟨cur, hcur, l, hl, rfl⟩ := he
    cases hl
    have hk := (lease?_some hcur).2
    exact edit_ok (m := cur) h (hk ▸ hcur) hb ⟨rfl, rfl, rfl, rfl, rfl, rfl⟩ rfl id
  | request w user dryRun =>
    simp only [localStep, Cluster.receive] at he
    split at he
    · next o =>
      split at he
      · cases he
      rename_i hfree
      cases he
      refine append_ok h rfl (List.subset_cons_self _ _) (fun o' ho' => ?_) hb
      cases ho'
      simp only [not_or] at hfree
      exact ⟨hfree.2.1, hfree.2.2, List.mem_cons_self⟩
    · next hno =>
      cases he
      exact append_ok h rfl (List.Subset.refl _) (fun o' ho' => absurd ho' (hno o')) hb
  | podPhase key phase =>
    simp only [localStep, Cluster.changeObject, Option.bind_eq_some_iff, Option.map_eq_some_iff] at he
    obtain ⟨q, hq, o, ho, rfl⟩ := he
    split at ho
    · cases ho
    · next hterm =>
      cases ho
      exact touch_ok h hq hb rfl rfl rfl rfl rfl fun ht => absurd ht hterm
  | markDeleted key =>
    simp only [localStep, Cluster.changeObject, Option.bind_eq_some_iff, Option.map_eq_some_iff] at he
    obtain ⟨q, hq, o, ho, rfl⟩ := he
    cases ho
    exact touch_ok h hq hb rfl rfl rfl rfl rfl id
  | removeObject key =>
    cases he
    exact remove_ok h hb
  | restart =>
    cases he
    have hok := h.clusters j
    have ha : Alike (s.clusters j) { s.clusters j with running := fun _ => none } :=
      ⟨rfl, rfl, rfl, List.Subset.refl _, rfl, rfl, Grows.refl _, List.suffix_refl _⟩
    exact ⟨h.alike hb ha hok.late hok.fence ((h.ledgers j).of_eq ha.evolves rfl rfl rfl rfl),
      Calm.alike hb ha (fun _ _ => (nomatch ·)) rfl rfl, hb.tidy (Tidy.of_eq rfl)⟩

theorem Becomes.set (s : Site ι cfg) (j : ι) (c' : Cluster) : Becomes s (s.set j c') j c' :=
  ⟨rfl, Function.update_self _ _ _, fun _ hk => Function.update_of_ne hk _ _⟩

/-! ## The environment -/

/-- Every step of the environment. -/
theorem env_ok {e : Env ι} (h : s.Ok F) (he : envStep F e s = some s') : StepOk F s s' := by
  cases e with
  | call c =>
    simp only [envStep] at he
    split at he
    · next hmay =>
      refine serve_ok h he fun _ call hcall C j t hop => ?_
      cases hcall
      exact absurd rfl (C.calls c hmay _ hop rfl j)
    · cases he
  | serve i ch => exact serve_ok h he fun _ _ hcall => (nomatch hcall)
  | tick t => exact serve_ok h he fun _ _ hcall => (nomatch hcall)
  | cluster j e =>
    obtain ⟨c', hc', rfl⟩ := Option.map_eq_some_iff.mp he
    exact localStep_ok h (Becomes.set s j c') hc'

end Berth.Operator
