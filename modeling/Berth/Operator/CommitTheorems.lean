/-
Berth.Operator.CommitTheorems — storing what the webhook sanctioned.

The commit of a workload write keeps the invariant. Its three parts, the
object, the record of a gate removal and the answer, are taken one after
the other. The point is the target of a stopping lease: an update that
made it active again was authorized by a lease that was active after the
object was last written, and a stop fence is later than that.
-/
import Berth.Operator.AdmissionTheorems

namespace Berth.Operator

open Berth.Interleave Berth.Lease

variable {ι : Type} {cfg : Server.Config} {F : Fleet ι} {j : ι} {i : Nat}
variable {t : Task ι} {s s' : Site ι cfg} {c c' : Cluster} {id : Nat}

/-! ## The parts of a commit -/

/-- A request is answered; a write that was stored comes with its fence. -/
theorem reply_ok {p : Pending} {a : Except ApiErr Unit} (h : s.Ok F)
    (hp : (s.clusters j).requests[id]? = some p) (hopen : p.answer = none)
    (hok : F.honest = true → a = .ok () → ∀ o, p.write = .update o → p.dryRun = false →
      o.uid ≠ "" → FenceOk (s.clusters j) o)
    (hb : Becomes s s' j ((s.clusters j).reply id a)) : StepOk F s s' :=
  ⟨h.alike hb (alike_reply hp hopen) (h.clusters j).late (h.clusters j).fence
      ((h.ledgers j).reply hp hopen hok),
    Calm.alike hb (alike_reply hp hopen) (fun _ _ hn => hn) rfl rfl, hb.tidy (Tidy.of_eq rfl)⟩

theorem Evolves.ungatings (c : Cluster) (us : List Ungating) :
    Evolves c { c with ungatings := us } :=
  { Evolves.refl c with }

/-- Gate removals are recorded. -/
theorem permit_ok {us : List Ungating} (h : s.Ok F)
    (hus : ∀ u ∈ us, Permitted (s.clusters j) u)
    (hb : Becomes s s' j { s.clusters j with ungatings := us ++ (s.clusters j).ungatings }) :
    StepOk F s s' := by
  have he := Evolves.ungatings (s.clusters j) (us ++ (s.clusters j).ungatings)
  have hok := h.clusters j
  have hc := hb.carries he
  refine ⟨h.change hb he ?_ ((h.ledgers j).of_eq he rfl rfl rfl rfl) fun hcareful C =>
      (h.tenures hcareful C j).of_eq hc (by rw [hb.here]) (by rw [hb.here]),
    Calm.change hb he (fun _ _ hn => hn) rfl fun _ _ _ hs => hs.of_eq rfl hs.late,
    hb.tidy (Tidy.of_eq rfl)⟩
  refine ⟨?_, ?_, ?_, ?_, ?_, ?_, ?_, ?_, ?_⟩ <;> rw [hb.here]
  · exact ⟨hok.wf.sorted, hok.wf.top, hok.wf.current, hok.wf.newest, hok.wf.lease_key, hok.wf.kept,
      hok.wf.known, hok.wf.same, hok.wf.object_top, hok.wf.object_uid, hok.wf.object_key,
      hok.wf.object_inj⟩
  · rw [hb.log]
    exact hok.born
  · exact fun v hv => (hok.version v hv).carries hc
  · exact fun w hw => (hok.late w hw).carries hc
  · exact hok.listed
  · exact hok.bound
  · exact hok.ungated
  · intro u hu
    rcases List.mem_append.mp hu with hu | hu
    · exact (hus u hu).evolves he
    · exact (hok.permits u hu).evolves he
  · exact hok.fence

/-! ## The target of a stopping lease -/

/-- An authorization that a stop came after is for objects from before the
stop. -/
theorem Authorized.not_stopping {v : Version} {rv : Nat} (h : Authorized c v.lease.uid rv)
    (hv : v ∈ c.versions) (hstop : StoppingFrom c v.lease.uid v.lease.resourceVersion) :
    rv < v.lease.resourceVersion := by
  obtain ⟨_, u, hu, huid, hact, hlater⟩ := h
  refine hlater v hv rfl ?_
  by_contra hle
  have hphase := hstop u hu huid (Nat.le_of_not_lt hle)
  rw [hact] at hphase
  cases hphase

theorem Aimed.not_pod {l : BerthLease} {o : Object} (h : Aimed l o) : o.kind ≠ "Pod" := by
  rcases h.kind with ⟨_, hk⟩ | ⟨_, hk | hk | hk⟩ <;> rw [hk] <;> decide

theorem Aimed.supported {l : BerthLease} {o : Object} (h : Aimed l o) :
    supportedController o.apiVersion o.kind = true := by
  rcases h.kind with ⟨hv, hk⟩ | ⟨hv, hk | hk | hk⟩ <;> rw [hv, hk] <;> decide

section Update

variable {o old : Object} {cur : Stored} {user binding : String} {dry : Bool}
variable {permit : Option (BerthLease × Time)}

/-- The object of an update. -/
theorem onto_key (o old : Object) : (o.onto old).defaulted.key = old.key := by
  rw [defaulted_key]
  rfl

theorem onto_uid (o old : Object) : (o.onto old).defaulted.uid = old.uid := by
  rw [defaulted_uid]
  rfl

theorem onto_annotated (o old : Object) (k : String) :
    (o.onto old).defaulted.annotation k = o.annotation k := by
  rw [Object.annotation, defaulted_metadata]
  rfl

theorem onto_terminal (o old : Object) (h : old.terminal = true) :
    (o.onto old).defaulted.terminal = true := by
  rw [Object.terminal, defaulted_phase]
  exact h

/-- A sanctioned update of a stopping lease's target leaves it inactive. -/
theorem rests_update (h : ClusterOk F j s) (hsrc : Sourced (s.clusters j))
    (hcur : cur ∈ (s.clusters j).objects) (hval : o.valid = true) (hkey : o.key = cur.object.key)
    (hs : Sanctioned (s.clusters j) ⟨(o.onto cur.object).defaulted, some cur.object, user, dry⟩
      binding permit) :
    Rests (s.clusters j) ⟨(o.onto cur.object).defaulted, cur.admitted⟩ := by
  intro p hp hpu v hv htar hne hstop hlt hin
  have hpu : p.object.uid = cur.object.uid := hpu.trans (onto_uid o cur.object)
  have hpc : p = cur := h.wf.object_inj p hp cur hcur hpu
  subst hpc
  have htar : v.lease.targetUID = p.object.uid := htar.trans (onto_uid o p.object)
  -- the object is the lease's target
  obtain ⟨w, hw⟩ : ∃ w, v.lease.status.workload = some w := by
    cases hw : v.lease.status.workload with
    | none => exact absurd (by simp [BerthLease.targetUID, hw]) hne
    | some w => exact ⟨w, rfl⟩
  have hwt : w.targetUID = v.lease.targetUID := by simp [BerthLease.targetUID, hw]
  have hreq := ((h.version v hv).record w hw).aimed (by rw [hwt]; exact hne)
  rw [hwt, htar] at hreq
  have haim := hsrc.aimed hreq hp (h.wf.known v hv).1
  have hann : p.object.annotation managedUID ≠ "" := by
    rw [haim.uid]
    exact (h.wf.known v hv).1
  have hkind : (o.onto p.object).kind = p.object.kind := rfl
  show inactiveTarget (o.onto p.object).defaulted = true
  cases hinc : increasesActivity (o.onto p.object).defaulted p.object with
  | false => exact inactiveTarget_update hval haim.supported hkind hinc hin
  | true =>
    have hauth := hs.active p.object rfl hann
      (by rw [defaulted_kind]; exact haim.not_pod) hinc
    rw [haim.uid] at hauth
    exact absurd hlt (Nat.not_lt.mpr (Nat.le_of_lt (hauth.not_stopping hv hstop)))

/-- The fence of a stored update is the fence of what was submitted. -/
theorem FenceOk.submitted {q : Stored} (h : FenceOk c q.object)
    (hq : q.object.annotation stopFence = o.annotation stopFence)
    (huid : o.uid = q.object.uid)
    (hin : inactiveTarget o = true → inactiveTarget q.object = true) : FenceOk c o := by
  have hfence : fenceOf o = fenceOf q.object := by rw [fenceOf, fenceOf, hq]
  refine ⟨fun n hn => h.issued n (hfence ▸ hn), huid ▸ h.used, fun v hv hf htar hne hi hstop => ?_⟩
  rw [huid]
  exact h.holds v hv (hfence ▸ hf) (htar.trans huid) hne (hin hi) hstop

end Update

/-! ## Commits -/

/-- The fence of an object that was checked names an issued revision. -/
theorem issued_fence {req : AdmissionRequest} {n : Nat}
    (h : F.honest = true → c.issued (.object req) = true)
    (hhon : F.honest = true) (hn : fenceOf req.object = some n) : n ≤ c.revision := by
  have hall := h hhon
  unfold fenceOf at hn
  simp only [Cluster.issued, hn, Option.all_some, decide_eq_true_eq] at hall
  exact hall

/-- One change after another, seen from in between. -/
theorem Becomes.rebase {s₁ : Site ι cfg} {c₁ : Cluster} (hb : Becomes s s' j c')
    (hb₁ : Becomes s s₁ j c₁) : Becomes s₁ s' j c' :=
  ⟨hb.central.trans hb₁.central.symm, hb.here,
    fun k hk => (hb.others k hk).trans (hb₁.others k hk).symm⟩

theorem Becomes.leases (hb : Becomes s s' j c') (hl : c'.leases = (s.clusters j).leases) (k : ι) :
    (s'.clusters k).leases = (s.clusters k).leases := by
  by_cases hk : k = j
  · rw [hk, hb.here, hl]
  · rw [hb.others k hk]

section Commit

variable [DecidableEq ι] {p : Pending} {req : AdmissionRequest} {binding user : String}
variable {permit : Option (BerthLease × Time)} {dry : Bool} {object old : Object}

/-- A sanctioned CREATE is stored. -/
theorem commit_create (h : s.Ok F) (hp : (s.clusters j).requests[id]? = some p)
    (hopen : p.answer = none) (hf : Fetched (s.clusters j) id (.object ⟨object, none, user, dry⟩))
    (hhon : F.honest = true → (s.clusters j).issued (.object ⟨object, none, user, dry⟩) = true)
    (hs : Sanctioned (s.clusters j) ⟨object, none, user, dry⟩ binding permit)
    (hfresh : object.uid ∉ (s.clusters j).uids)
    (hb : Becomes s s' j (((s.clusters j).putObject ⟨object, binding⟩).reply id (.ok ()))) :
    StepOk F s s' := by
  obtain ⟨q, o, hq, hw, _, hobj⟩ := hf
  rw [hp, Option.some.injEq] at hq
  subst hq
  obtain ⟨s₁, hb₁⟩ : ∃ s₁, Becomes s s₁ j ((s.clusters j).putObject ⟨object, binding⟩) :=
    ⟨_, Becomes.set s j _⟩
  have hput : StepOk F s s₁ := by
    refine object_ok h hb₁ (.inr hfresh) (fun p' hp' hu => ?_) (fun _ => ⟨o, ⟨id, p, hp, hw⟩, ?_, ?_⟩)
      (fun hhon' n hn => issued_fence hhon hhon' hn) (fun hadm => (hs.created rfl hadm).1)
      fun hpod hadm hoff => ?_
    · exact absurd (hu ▸ (h.clusters j).wf.object_uid p' hp') hfresh
    · rw [hobj, defaulted_uid]
      rfl
    · rw [hobj]
      refine ⟨defaulted_key _, fun _ => ?_⟩
      simp only [Object.annotation, defaulted_metadata]
      exact ⟨rfl, rfl⟩
    · have hpod : object.isPod = true := hpod
      simp only [Object.isPod, Bool.and_eq_true, beq_iff_eq] at hpod
      have hgate : object.pod.gateOn = true := (hs.created rfl hadm).2 hpod.2
      rw [hoff] at hgate
      cases hgate
  have hb₂ := hb.rebase hb₁
  rw [← hb₁.here] at hb₂
  refine hput.andThen (reply_ok (p := p) hput.ok ?_ hopen ?_ hb₂) (hb₁.leases rfl)
  · rw [hb₁.here]
    exact hp
  · intro _ _ o' hw'
    rw [hw] at hw'
    cases hw'

/-- A sanctioned UPDATE of the object that was reviewed is stored. -/
theorem commit_update {cur : Stored} (h : s.Ok F)
    (hp : (s.clusters j).requests[id]? = some p) (hopen : p.answer = none)
    (hf : Fetched (s.clusters j) id (.object ⟨object, some cur.object, user, dry⟩))
    (hhon : F.honest = true →
      (s.clusters j).issued (.object ⟨object, some cur.object, user, dry⟩) = true)
    (hs : Sanctioned (s.clusters j) ⟨object, some cur.object, user, dry⟩ binding permit)
    (hcur : cur ∈ (s.clusters j).objects)
    (hb : Becomes s s' j (({ (s.clusters j).putObject ⟨object, cur.admitted⟩ with
      ungatings := Cluster.ungating cur object permit ++
        ((s.clusters j).putObject ⟨object, cur.admitted⟩).ungatings }).reply id (.ok ()))) :
    StepOk F s s' := by
  obtain ⟨q, o, hq, hw, hd, rfl, hval, hkey, hnames, _⟩ := hf
  rw [hp, Option.some.injEq] at hq
  subst hq
  have hok := h.clusters j
  have hname := ObjectKey.mk.inj (onto_key o cur.object)
  have hadmitted : cur.admitted ≠ "" → cur.object.annotation managedUID ≠ "" := fun hadm => by
    rw [hok.bound cur hcur hadm]
    exact hadm
  -- a gate that goes was permitted
  have hperm : cur.object.isPod = true → cur.admitted ≠ "" → cur.object.pod.gateOn = true →
      (o.onto cur.object).defaulted.pod.gateOn = false → Permitted (s.clusters j)
        ⟨⟨(o.onto cur.object).defaulted.name, (o.onto cur.object).defaulted.uid⟩,
          cur.admitted, permit⟩ := by
    intro hpod hadm hon hoff
    simp only [Object.isPod, Bool.and_eq_true, beq_iff_eq] at hpod
    obtain ⟨l, τ, n, hread, hl, huid, hact, hmem⟩ :=
      hs.ungated cur.object rfl (hadmitted hadm) (hname.2.1.trans hpod.2) hon hoff
    exact ⟨l, τ, n, hread, hl, huid.trans (hok.bound cur hcur hadm), hact, hmem⟩
  obtain ⟨s₁, hb₁⟩ : ∃ s₁, Becomes s s₁ j
      ((s.clusters j).putObject ⟨(o.onto cur.object).defaulted, cur.admitted⟩) :=
    ⟨_, Becomes.set s j _⟩
  have hput : StepOk F s s₁ := by
    refine object_ok h hb₁ (.inl ⟨cur, hcur, onto_key o _, onto_uid o _, rfl,
      fun hne => hs.kept cur.object rfl hne, onto_terminal o _⟩)
      (rests_update hok (h.ledgers j).sourced hcur hval hkey hs) (fun hn => absurd ?_ hn)
      (fun hhon' n hn => issued_fence hhon hhon' hn) (fun hadm => ?_) fun hpod hadm hoff => ?_
    · show (o.onto cur.object).defaulted.uid ∈ _
      rw [onto_uid]
      exact hok.wf.object_uid cur hcur
    · exact (hs.kept cur.object rfl (hadmitted hadm)).1.trans (hok.bound cur hcur hadm)
    · have hpod : (o.onto cur.object).defaulted.isPod = true := hpod
      rw [Object.isPod, hname.1, hname.2.1] at hpod
      cases hon : cur.object.pod.gateOn with
      | true =>
        obtain ⟨l, τ, n, _, hl, huid, _, hmem⟩ := hperm hpod hadm hon hoff
        exact ⟨_, hl, huid, hmem⟩
      | false =>
        obtain ⟨v, hv, huid, hmem⟩ := hok.ungated cur hcur hpod hadm hon
        refine ⟨v, hv, huid, ?_⟩
        show (⟨(o.onto cur.object).defaulted.name, (o.onto cur.object).defaulted.uid⟩ :
          PermittedPod) ∈ v.lease.pods
        rw [hname.2.2.2, onto_uid]
        exact hmem
  -- then the gate removal is recorded
  obtain ⟨s₂, hb₂⟩ : ∃ s₂, Becomes s₁ s₂ j { s₁.clusters j with
      ungatings := Cluster.ungating cur (o.onto cur.object).defaulted permit ++
        (s₁.clusters j).ungatings } := ⟨_, Becomes.set s₁ j _⟩
  have hmark := permit_ok hput.ok
    (fun u hu => by
      unfold Cluster.ungating at hu
      split at hu
      · next hcond =>
        simp only [Bool.and_eq_true, bne_iff_ne, Bool.not_eq_true'] at hcond
        rw [List.mem_singleton.mp hu]
        exact (hperm hcond.1.1.1 hcond.1.1.2 hcond.1.2 hcond.2).evolves (hput.calm.carries.clusters j)
      · cases hu) hb₂
  have htwo := hput.andThen hmark (hb₁.leases rfl)
  have hb₃ := (hb.rebase hb₁).rebase hb₂
  rw [← hb₁.here, ← hb₂.here] at hb₃
  refine htwo.andThen (reply_ok (p := p) htwo.ok ?_ hopen ?_ hb₃) fun k => ?_
  · rw [hb₂.here, hb₁.here]
    exact hp
  · -- and the answer is worth the fence that was stored
    intro hhon' _ o' hw' _ hne
    rw [hw] at hw'
    cases hw'
    have hst := ((hput.ok.ledgers j).fences hhon').stored
    have hwf := (hput.ok.clusters j).wf
    rw [hb₁.here] at hst hwf
    have hfence := hst.fenceOk hwf (mem_putObject.mpr (.inl rfl))
    refine FenceOk.evolves ?_ (hmark.calm.carries.clusters j)
    rw [hb₁.here]
    refine hfence.submitted (onto_annotated o cur.object stopFence) ?_ fun hin => ?_
    · simp only [Cluster.names, Bool.and_eq_true, Bool.or_eq_true, beq_iff_eq] at hnames
      exact (hnames.2.resolve_left hne).trans (onto_uid o cur.object).symm
    · refine inactiveTarget_defaulted (o := o.onto cur.object) ?_
      have hkind := (ObjectKey.mk.inj hkey).2.1
      unfold inactiveTarget suspends at hin ⊢
      rw [hkind] at hin
      exact hin
  · rw [hb₂.leases rfl k, hb₁.leases rfl k]

/-- A Pod is bound to a node. -/
theorem commitBinding_ok {key : Key} {uid node : String} (h : s.Ok F)
    (hp : (s.clusters j).requests[id]? = some p) (hopen : p.answer = none)
    (hw : p.write = .bind key uid node)
    (hb : Becomes s s' j ((s.clusters j).commitBinding id key uid node)) : StepOk F s s' := by
  unfold Cluster.commitBinding at hb
  split at hb
  · exact refuse_ok h hp hopen hb
  rename_i cur hcur
  split at hb
  · obtain ⟨s₁, hb₁⟩ : ∃ s₁, Becomes s s₁ j ((s.clusters j).putObject
        { cur with object :=
          { cur.object with pod := { cur.object.pod with nodeName := node } } }) :=
      ⟨_, Becomes.set s j _⟩
    have htouch : StepOk F s s₁ := touch_ok h hcur hb₁ rfl rfl rfl rfl rfl fun ht => ht
    have hb₂ := hb.rebase hb₁
    rw [← hb₁.here] at hb₂
    refine htouch.andThen (reply_ok (p := p) htouch.ok ?_ hopen ?_ hb₂) (hb₁.leases rfl)
    · rw [hb₁.here]
      exact hp
    · intro _ _ o hw'
      rw [hw] at hw'
      cases hw'
  · exact refuse_ok h hp hopen hb

/-- The API server acts on a sanctioned answer. -/
theorem commit_ok {review : Review} {verdict : Verdict} (h : s.Ok F)
    (hp : (s.clusters j).requests[id]? = some p)
    (hx : (s.clusters j).commit id p review verdict = some c')
    (hhon : F.honest = true → (s.clusters j).issued review = true)
    (hf : Fetched (s.clusters j) id review) (ha : Answers review verdict (s.clusters j))
    (hb : Becomes s s' j c') : StepOk F s s' := by
  unfold Cluster.commit at hx
  split at hx
  · cases hx
  rename_i hopen
  have hopen : p.answer = none := by simpa using hopen
  split at hx
  · cases hx
    exact refuse_ok h hp hopen hb
  rename_i binding permit
  split at hx
  · next req =>
    have hs := ha req binding permit rfl rfl
    obtain ⟨object, old?, user, dry⟩ := req
    split at hx
    · next hdry =>
      cases hx
      refine reply_ok h hp hopen (fun _ _ o _ hd => ?_) hb
      -- a dry run stores nothing
      have hpd : p.dryRun = dry := by
        cases old? with
        | none =>
          obtain ⟨q, _, hq, _, hqd, _⟩ := hf
          rw [hp, Option.some.injEq] at hq
          rw [hq]
          exact hqd
        | some old =>
          obtain ⟨q, _, hq, _, hqd, _⟩ := hf
          rw [hp, Option.some.injEq] at hq
          rw [hq]
          exact hqd
      rw [hpd] at hd
      rw [hd] at hdry
      cases hdry
    · cases old? with
      | none =>
        simp only [Cluster.commitObject] at hx
        split at hx
        · cases hx
          exact refuse_ok h hp hopen hb
        split at hx
        · cases hx
        · next hfresh =>
          cases hx
          exact commit_create h hp hopen hf hhon hs (fun hin => hfresh (.inr hin)) hb
      | some old =>
        simp only [Cluster.commitObject] at hx
        split at hx
        · cases hx
          exact refuse_ok h hp hopen hb
        rename_i cur hcur
        split at hx
        · cases hx
          exact refuse_ok h hp hopen hb
        rename_i hsame
        cases hx
        have hsame : cur.object = old := not_not.mp hsame
        subst hsame
        exact commit_update h hp hopen hf hhon hs (object?_some hcur).1 hb
  · next key uid node =>
    cases hx
    obtain ⟨q, hq, hw⟩ := hf
    rw [hp, Option.some.injEq] at hq
    subst hq
    exact commitBinding_ok h hp hopen hw hb

end Commit

/-! ## The API server's thread -/

/-- What the API server takes up is a request. -/
theorem fetch_fetched {p : Pending} {review : Review} (hwf : Wf c)
    (hp : c.requests[id]? = some p) (h : c.fetch id p = (some review, c')) :
    Fetched c id review := by
  unfold Cluster.fetch at h
  split at h
  · cases h
  split at h
  · next o hw =>
    split at h
    · cases h
      exact ⟨p, o, hp, hw, rfl, rfl⟩
    · cases h
  · next o hw =>
    split at h
    · cases h
    rename_i cur hcur
    split at h
    · cases h
    rename_i hnames
    split at h
    · next hval =>
      cases h
      obtain ⟨hmem, hkey⟩ := object?_some hcur
      exact ⟨p, o, hp, hw, rfl, rfl, hval, hkey.symm, by simpa using hnames,
        hwf.object_top cur hmem⟩
    · cases h
  · next key uid node hw =>
    cases h
    exact ⟨p, hp, hw⟩

variable [DecidableEq ι] {α : Type} {Q : α → Task ι → Site ι cfg → Prop}

theorem robust_fetch {k : Option Review → Prog ClusterSig α}
    (hk : ∀ r s', s'.Ok F →
      (∀ review, r = some review → Fetched (s'.clusters t.cluster) id review) →
      Robust (discipline F cfg) i (k r) Q t s') :
    Robust (discipline F cfg) i ((fetch id).bind k) Q t s := by
  refine robust_read (o := .fetch id) rfl fun r s' hok hsince => hk r s' hok ?_
  rintro review rfl
  obtain ⟨s₁, _, hok₁, ⟨ch, s₂, hx⟩, h₂⟩ := hsince
  obtain ⟨c', hc', _⟩ := execLive_local rfl hx
  obtain ⟨p, hp, heq⟩ := Option.map_eq_some_iff.mp hc'
  exact (fetch_fetched (hok₁.clusters t.cluster).wf hp heq).evolves h₂.evolves

theorem robust_commit {review : Review} {verdict : Verdict} {k : Unit → Prog ClusterSig α}
    (hf : Fetched (s.clusters t.cluster) id review)
    (ha : ∀ s', Carries s s' → Answers review verdict (s'.clusters t.cluster))
    (hk : ∀ s', s'.Ok F → Robust (discipline F cfg) i (k ()) Q t s') :
    Robust (discipline F cfg) i ((commit id review verdict).bind k) Q t s := by
  refine robust_effect (o := .commit id review verdict) fun ch r s₁ s₂ hi hok hown hlive => ?_
  obtain ⟨c', hx, rfl⟩ := execLive_local rfl hlive
  simp only [execLocal] at hx
  split at hx
  · cases hx
  rename_i hhon
  obtain ⟨p, hp, hx⟩ := Option.bind_eq_some_iff.mp hx
  obtain ⟨c'', hcommit, heq⟩ := Option.map_eq_some_iff.mp hx
  cases heq
  have hstep := commit_ok hok hp hcommit (fun hhon' => by simpa [hhon'] using hhon)
    (hf.evolves hi.evolves) (ha s₁ hi.carries) (Becomes.set s₁ t.cluster _)
  have hg := hstep.acts.noted (i := i) hown
    (Entry.plain (o := .commit id review verdict) (r := ()) rfl)
  exact ⟨hg, hk _ hg.2⟩

theorem Sanctioned.evolves {req : AdmissionRequest} {binding : String}
    {permit : Option (BerthLease × Time)} (h : Sanctioned c req binding permit)
    (he : Evolves c c') : Sanctioned c' req binding permit where
  created := h.created
  kept := h.kept
  ungated := fun old hold hne hpod hon hoff => by
    obtain ⟨l, τ, n, hread, hl, hrest⟩ := h.ungated old hold hne hpod hon hoff
    exact ⟨l, τ, n, hread, he.versions.subset hl, hrest⟩
  active := fun old hold hne hpod hinc => (h.active old hold hne hpod hinc).evolves he

/-- The API server's handling of a write. -/
theorem robust_handleWrite (user : String) :
    Robust (discipline F cfg) i (handleWrite user id) (fun _ t' _ => t' = t) t s := by
  refine robust_fetch fun r s₁ _ hf => ?_
  cases r with
  | none => exact fun _ _ _ => rfl
  | some review =>
    refine Robust.bind ((robust_handle (hf review rfl)).mono ?_)
    rintro verdict t' s₂ _ ⟨rfl, hc, ha⟩
    refine robust_commit (k := .ret) ((hf review rfl).evolves (hc.clusters _))
      (fun s₃ hc₃ req b permit hreq hv => (ha req b permit hreq hv).evolves (hc₃.clusters _))
      fun s₃ _ => fun _ _ _ => rfl

end Berth.Operator
