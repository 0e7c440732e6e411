/-
Berth.Operator.AdmissionTheorems — what the webhook's answer is worth.

First the checks on one object: `validateManagedObject` refuses unless the
binding, the gate and the node are as they were. Then the handler as a
thread of the API server. Its answer is `Sanctioned`: the binding of an
admitted object stays, a gate goes only from a Pod that an active lease
listed, and a controller's activity rises only on the word of a lease that
was active after the object was read.
-/
import Berth.Operator.Rules

namespace Berth.Operator

open Berth.Interleave Berth.Lease

/-! ## Checks on one object -/

section Checks

variable {obj old : Object} {spec : PodSpec} {b : Binding} {operator : Bool}

theorem validateMetadata_none {m : Meta} : validateMetadata m b = none ↔
    m.annotation managedLease = b.name ∧ m.annotation managedUID = b.uid ∧
      m.label managedUID = b.uid := by
  unfold validateMetadata
  split
  · next h =>
    constructor
    · exact (nomatch ·)
    · rintro ⟨h₁, h₂, h₃⟩
      rcases h with h | h | h
      · exact absurd h₁ h
      · exact absurd h₂ h
      · exact absurd h₃ h
  · next h =>
    simp only [not_or, not_not] at h
    exact ⟨fun _ => h, fun _ => rfl⟩

/-- What holds of a Pod that is updated. -/
theorem validateGate_update (h : validateGate obj (some old) spec operator = none)
    (hpod : obj.kind = "Pod") :
    old.ownerReferences = obj.ownerReferences ∧ old.pod.nodeName = spec.nodeName ∧
      (old.pod.gateOn = true → obj.pod.gateOn = false → operator = true) := by
  unfold validateGate at h
  rw [hpod] at h
  simp only [beq_self_eq_true] at h
  split at h
  · cases h
  rename_i howner
  split at h
  · cases h
  rename_i hnode
  split at h
  · cases h
  · next hgate =>
    refine ⟨not_not.mp howner, not_not.mp hnode, fun hold hnew => ?_⟩
    simpa [hold, hnew] using hgate

/-- Everything else carries the gate. -/
theorem validateGate_gateOn {old : Option Object} (h : validateGate obj old spec operator = none)
    (hkind : obj.kind ≠ "Pod" ∨ old = none) : spec.gateOn = true := by
  unfold validateGate at h
  split at h
  · next hpod heq =>
    rcases hkind with hkind | hnone
    · exact absurd (eq_of_beq heq) hkind
    · cases hnone
  · split at h
    · cases h
    · next hgate => simpa using hgate

theorem validateTemplate_none {old : Option Object}
    (h : validateTemplate obj old spec b operator = none) :
    (obj.kind ≠ "Pod" ∨ old = none → spec.nodeName = "") ∧
      validateGate obj old spec operator = none ∧
      (obj.kind = "CronJob" → validateMetadata obj.jobTemplate b = none) := by
  unfold validateTemplate at h
  split at h
  · cases h
  rename_i hnode
  split at h
  · cases h
  rename_i hgate
  refine ⟨fun hkind => ?_, hgate, fun hcron => ?_⟩
  · by_contra hne
    refine hnode ⟨hne, hkind.imp id fun hnone => ?_⟩
    rw [hnone]
    rfl
  · rw [if_pos hcron] at h
    exact h

/-- An object that passes carries the binding, and so does its template. -/
theorem validateManagedObject_none {old : Option Object}
    (h : validateManagedObject obj old b operator = none) :
    validateMetadata obj.metadata b = none ∧
      (obj.kind = "Pod" → validateTemplate obj old obj.pod b operator = none) ∧
      (obj.kind ≠ "Pod" → ∃ t, obj.template = some t ∧ validateMetadata t.metadata b = none ∧
        validateTemplate obj old t.spec b operator = none) := by
  unfold validateManagedObject at h
  split at h
  · cases h
  rename_i hmeta
  refine ⟨hmeta, ?_⟩
  split at h
  · next hpod => exact ⟨fun _ => h, fun hne => absurd hpod hne⟩
  rename_i hpod
  refine ⟨fun hp => absurd hp hpod, fun _ => ?_⟩
  split at h
  · cases h
  rename_i t ht
  split at h
  · cases h
  · next hm => exact ⟨t, ht, hm, h⟩

/-- The binding that a passing object carries. -/
theorem validateManagedObject_binding {old : Option Object}
    (h : validateManagedObject obj old b operator = none) :
    obj.annotation managedLease = b.name ∧ obj.annotation managedUID = b.uid :=
  ⟨(validateMetadata_none.mp (validateManagedObject_none h).1).1,
    (validateMetadata_none.mp (validateManagedObject_none h).1).2.1⟩

theorem registered_mem {ps : List PermittedPod} {name uid : String}
    (h : registered ps name uid = true) : ⟨name, uid⟩ ∈ ps := by
  obtain ⟨x, hx, heq⟩ := List.any_eq_true.mp h
  simp only [Bool.and_eq_true, beq_iff_eq] at heq
  rw [← heq.1, ← heq.2]
  exact hx

theorem activeAt_phase {l : BerthLease} {τ : Time} (h : activeAt l τ = true) :
    l.phase = .active := by
  unfold activeAt at h
  rw [Bool.and_eq_true] at h
  split at h
  · cases h.2
  rename_i w hw
  simp only [Bool.and_eq_true, beq_iff_eq] at h
  rw [phase_some hw]
  exact h.2.1.1

theorem replaceable_idle {l : BerthLease} (h : replaceable l = true) :
    l.phase = .idle ∧ l.pods = [] := by
  unfold replaceable at h
  split at h
  · next hw => exact ⟨phase_none hw, pods_none hw⟩
  · next w hw =>
    simp only [Bool.and_eq_true, beq_iff_eq, List.isEmpty_iff] at h
    exact ⟨(phase_some hw).trans h.1, (pods_some hw).trans h.2⟩

theorem targets_target {l : BerthLease} {o : Object} (h : targets l o = true) :
    ∃ t, l.spec.target = some t ∧ t.name = o.name ∧ t.apiVersion = o.apiVersion ∧
      t.kind = o.kind := by
  unfold targets at h
  split at h
  · cases h
  · next t ht =>
    simp only [Bool.and_eq_true, beq_iff_eq] at h
    exact ⟨t, ht, h.1.1, h.1.2, h.2⟩

/-- The kinds of target that a spec may have. -/
theorem workloadSpec_kind {sp : BerthLeaseSpec} {t : TargetRef} (h : workloadSpec sp = none)
    (ht : sp.target = some t) :
    t.apiVersion = "batch/v1" ∧ t.kind = "CronJob" ∨
      t.apiVersion = "apps/v1" ∧
        (t.kind = "Deployment" ∨ t.kind = "StatefulSet" ∨ t.kind = "ReplicaSet") := by
  unfold workloadSpec at h
  rw [ht] at h
  dsimp only at h
  split at h
  · cases h
  split at h
  · split at h
    · next hcron => exact .inl hcron
    · split at h
      · cases h
      · next hno =>
        simp only [not_or, not_not, not_and] at hno
        refine .inr ⟨hno.1, ?_⟩
        by_contra hkind
        simp only [not_or] at hkind
        exact hkind.2.2 (hno.2 hkind.1 hkind.2.1)
  · cases h

end Checks

/-! ## Activity -/

section Activity

variable {o old : Object}

@[simp] theorem defaulted_key (o : Object) : o.defaulted.key = o.key := by
  unfold Object.defaulted
  repeat' split
  all_goals rfl

@[simp] theorem defaulted_uid (o : Object) : o.defaulted.uid = o.uid := by
  unfold Object.defaulted
  repeat' split
  all_goals rfl

@[simp] theorem defaulted_metadata (o : Object) : o.defaulted.metadata = o.metadata := by
  unfold Object.defaulted
  repeat' split
  all_goals rfl

@[simp] theorem defaulted_phase (o : Object) : o.defaulted.phase = o.phase := by
  unfold Object.defaulted
  repeat' split
  all_goals rfl

theorem defaulted_kind (o : Object) : o.defaulted.kind = o.kind :=
  (ObjectKey.mk.inj (defaulted_key o)).2.1

theorem suspends_defaulted (o : Object) : suspends o.defaulted = suspends o := by
  unfold suspends
  rw [defaulted_kind]

/-- Defaults keep an inactive object inactive. -/
theorem inactiveTarget_defaulted (h : inactiveTarget o = true) :
    inactiveTarget o.defaulted = true := by
  unfold inactiveTarget at h ⊢
  rw [suspends_defaulted]
  unfold Object.defaulted
  split at h
  · next hsus =>
    rw [beq_iff_eq] at h
    rw [if_pos hsus]
    split <;> simp [h]
  · next hsus =>
    rw [beq_iff_eq] at h
    rw [if_neg hsus]
    split <;> simp [h]

/-- A supported controller that was inactive and does not become more
active stays inactive. -/
theorem inactiveTarget_update {new : Object} (hval : new.valid = true)
    (hsup : supportedController new.apiVersion new.kind = true) (hkind : new.kind = old.kind)
    (hinc : increasesActivity new.defaulted old = false) (hin : inactiveTarget old = true) :
    inactiveTarget new.defaulted = true := by
  have hsame : suspends old = suspends new := by
    unfold suspends
    rw [hkind]
  unfold increasesActivity at hinc
  unfold inactiveTarget at hin ⊢
  rw [suspends_defaulted] at hinc ⊢
  rw [hsame] at hin
  unfold Object.defaulted at hinc ⊢
  rw [if_pos hsup] at hinc ⊢
  unfold Object.valid at hval
  split at hin
  · next hsus =>
    rw [beq_iff_eq] at hin
    simp only [hsus, if_true, hin, Option.getD_some, Bool.true_and, Bool.not_eq_false'] at hinc ⊢
    rw [hinc]
    rfl
  · next hsus =>
    rw [beq_iff_eq] at hin
    have hsus : suspends new = false := by simpa using hsus
    simp only [hsus, Bool.false_eq_true, if_false, hin, Option.getD_some,
      decide_eq_false_iff_not] at hinc ⊢
    cases hrep : new.replicas with
    | none =>
      rw [hrep] at hinc
      exact absurd (by decide) hinc
    | some n =>
      rw [hrep] at hinc hval
      simp only [Option.all_some, decide_eq_true_eq] at hval
      simp only [Option.getD_some] at hinc ⊢
      rw [Int.le_antisymm (Int.not_lt.mp hinc) hval]
      rfl

end Activity

/-! ## What the handler has to go on -/

section Handler

variable {ι : Type} {cfg : Server.Config} {F : Fleet ι} {j : ι} {i : Nat}
variable {t : Task ι} {s s' : Site ι cfg} {c c' : Cluster} {id : Nat}

/-- The review is of request `id`. -/
def Fetched (c : Cluster) (id : Nat) : Review → Prop
  | .object ⟨object, none, _, dryRun⟩ => ∃ (p : Pending) (o : Object), c.requests[id]? = some p ∧
      p.write = .create o ∧ p.dryRun = dryRun ∧ object = o.fresh.defaulted
  | .object ⟨object, some old, _, dryRun⟩ => ∃ (p : Pending) (o : Object),
      c.requests[id]? = some p ∧ p.write = .update o ∧ p.dryRun = dryRun ∧
      object = (o.onto old).defaulted ∧ o.valid = true ∧ o.key = old.key ∧
      Cluster.names o old = true ∧ old.resourceVersion ≤ c.revision
  | .binding key uid node => ∃ p : Pending, c.requests[id]? = some p ∧ p.write = .bind key uid node

theorem Fetched.evolves {review : Review} (h : Fetched c id review) (he : Evolves c c') :
    Fetched c' id review := by
  match review, h with
  | .object ⟨_, none, _, _⟩, ⟨p, o, hp, hw, hd, hrest⟩ =>
    obtain ⟨p', hp', hw', hd', _⟩ := he.requests id p hp
    exact ⟨p', o, hp', hw'.trans hw, hd'.trans hd, hrest⟩
  | .object ⟨_, some _, _, _⟩, ⟨p, o, hp, hw, hd, hobj, hval, hkey, hnames, hrv⟩ =>
    obtain ⟨p', hp', hw', hd', _⟩ := he.requests id p hp
    exact ⟨p', o, hp', hw'.trans hw, hd'.trans hd, hobj, hval, hkey, hnames,
      Nat.le_trans hrv he.revision⟩
  | .binding _ _ _, ⟨p, hp, hw⟩ =>
    obtain ⟨p', hp', hw', _⟩ := he.requests id p hp
    exact ⟨p', hp', hw'.trans hw⟩

/-- A lease was active at revision `rv` or later. -/
def Authorized (c : Cluster) (uid : String) (rv : Nat) : Prop :=
  rv ≤ c.revision ∧ ∃ v ∈ c.versions, v.lease.uid = uid ∧ v.lease.phase = .active ∧
    ∀ u ∈ c.versions, u.lease.uid = uid → v.lease.resourceVersion < u.lease.resourceVersion →
      rv < u.lease.resourceVersion

theorem Authorized.evolves {uid : String} {rv : Nat} (h : Authorized c uid rv)
    (he : Evolves c c') : Authorized c' uid rv := by
  obtain ⟨hrv, v, hv, huid, hact, hlater⟩ := h
  refine ⟨Nat.le_trans hrv he.revision, v, he.versions.subset hv, huid, hact, fun u hu huu hlt => ?_⟩
  rcases he.later u hu with hu | hnew
  · exact hlater u hu huu hlt
  · exact Nat.lt_of_le_of_lt hrv hnew

/-- A lease that is stored as active right now. -/
theorem Authorized.of_current {l : BerthLease} {rv : Nat} (hwf : Wf c) (hl : l ∈ c.leases)
    (hact : l.phase = .active) (hrv : rv ≤ c.revision) : Authorized c l.uid rv := by
  obtain ⟨n, hn⟩ := hwf.current l hl
  refine ⟨hrv, ⟨l, n⟩, hn, rfl, hact, fun u hu huid hlt => ?_⟩
  exact absurd (hwf.newest l hl u hu (hwf.same_current hu hl huid).key.symm) (Nat.not_le.mpr hlt)

/-- What an admitted request may be stored on. -/
structure Sanctioned (c : Cluster) (req : AdmissionRequest) (binding : String)
    (permit : Option (BerthLease × Time)) : Prop where
  created : req.old = none → binding ≠ "" → req.object.annotation managedUID = binding ∧
    (req.object.kind = "Pod" → req.object.pod.gateOn = true)
  kept : ∀ old, req.old = some old → old.annotation managedUID ≠ "" →
    req.object.annotation managedUID = old.annotation managedUID ∧
      req.object.annotation managedLease = old.annotation managedLease
  ungated : ∀ old, req.old = some old → old.annotation managedUID ≠ "" →
    req.object.kind = "Pod" → old.pod.gateOn = true → req.object.pod.gateOn = false →
    ∃ l τ n, permit = some (l, τ) ∧ ⟨l, n⟩ ∈ c.versions ∧ l.uid = old.annotation managedUID ∧
      activeAt l τ = true ∧ ⟨req.object.name, req.object.uid⟩ ∈ l.pods
  active : ∀ old, req.old = some old → old.annotation managedUID ≠ "" →
    req.object.kind ≠ "Pod" → increasesActivity req.object old = true →
    Authorized c (old.annotation managedUID) old.resourceVersion

/-- The handler's answer, after a request for `review`. -/
def Answers (review : Review) (verdict : Verdict) (c : Cluster) : Prop :=
  ∀ req b permit, review = .object req → verdict = .allowed b permit → Sanctioned c req b permit

theorem answers_denied {review : Review} {e : Err} : Answers review (.denied e) c :=
  fun _ _ _ _ heq => (nomatch heq)

theorem answers_binding {key : Key} {uid node : String} {verdict : Verdict} :
    Answers (.binding key uid node) verdict c := fun _ _ _ heq => (nomatch heq)

/-- An object that was not admitted before. -/
theorem answers_unbound {req : AdmissionRequest} {permit : Option (BerthLease × Time)}
    (h : ∀ old, req.old = some old → old.annotation managedUID = "") :
    Answers (.object req) (.allowed "" permit) c := by
  intro req' b permit' heq hv
  cases heq
  cases hv
  exact ⟨fun _ hne => absurd rfl hne, fun old hold hne => absurd (h old hold) hne,
    fun old hold hne => absurd (h old hold) hne, fun old hold hne => absurd (h old hold) hne⟩

/-! ## The handler -/

theorem gentle_rootBinding (o : Object) : Gentle (rootBinding o) := by
  unfold rootBinding
  split
  · refine gentle_effect (o := .listLeases o.ns) rfl fun (r : Except ApiErr (List BerthLease)) => ?_
    cases r with
    | error e => exact gentle_pure _
    | ok leases =>
      dsimp only
      split
      · exact gentle_pure _
      · split <;> exact gentle_pure _
  · exact gentle_pure _

theorem gentle_resolveBinding (n : Nat) (o : Object) : Gentle (resolveBinding n o) := by
  induction n generalizing o with
  | zero => exact gentle_pure _
  | succ n ih =>
    unfold resolveBinding
    split
    · exact gentle_rootBinding o
    refine gentle_effect (o := .getObject _) rfl fun (r : Except ApiErr Object) => ?_
    cases r with
    | error e => exact gentle_pure _
    | ok parent =>
      dsimp only
      split
      · exact gentle_pure _
      · exact ih parent

theorem gentle_validateBinding (key : Key) (uid : String) : Gentle (validateBinding key uid) := by
  refine gentle_effect (o := .getObject _) rfl fun (r : Except ApiErr Object) => ?_
  cases r with
  | error e => exact gentle_pure _
  | ok pod =>
    dsimp only
    repeat' split
    all_goals exact gentle_pure _

variable [DecidableEq ι] {obj old : Object} {b : Binding} {operator : Bool}

/-- A permit is a version that listed the Pod. -/
theorem robust_validatePermit : Robust (discipline F cfg) i (validatePermit obj b)
    (fun r t' s' => t' = t ∧ Keeps F i t s s' ∧ ∀ l τ, r = .ok (l, τ) →
      (∃ n, ⟨l, n⟩ ∈ (s'.clusters t.cluster).versions) ∧ l.uid = b.uid ∧ activeAt l τ = true ∧
        ⟨obj.name, obj.uid⟩ ∈ l.pods) t s := by
  refine robust_getLease fun r s₁ _ hk₁ hread => ?_
  cases r with
  | error e => exact fun s' hi _ => ⟨rfl, hk₁.trans hi.toKeeps, fun _ _ heq => (nomatch heq)⟩
  | ok l =>
    dsimp only
    split
    · exact fun s' hi _ => ⟨rfl, hk₁.trans hi.toKeeps, fun _ _ heq => (nomatch heq)⟩
    rename_i huid
    refine robust_now fun τ s₂ _ hk₂ => ?_
    split
    · exact fun s' hi _ => ⟨rfl, (hk₁.trans hk₂).trans hi.toKeeps, fun _ _ heq => (nomatch heq)⟩
    rename_i hact
    split
    · exact fun s' hi _ => ⟨rfl, (hk₁.trans hk₂).trans hi.toKeeps, fun _ _ heq => (nomatch heq)⟩
    rename_i hreg
    intro s' hi _
    refine ⟨rfl, (hk₁.trans hk₂).trans hi.toKeeps, fun l' τ' heq => ?_⟩
    cases heq
    obtain ⟨n, _, hr⟩ := (hread l rfl).2.read
    exact ⟨⟨n, ((hr.keeps hk₂).keeps hi.toKeeps).mem⟩, not_not.mp huid,
      by simpa using hact, registered_mem (by simpa using hreg)⟩

/-- An activation is authorized by a lease that was active after the object
was read. -/
theorem robust_validateActivation {rv : Nat} (hrv : rv ≤ (s.clusters t.cluster).revision) :
    Robust (discipline F cfg) i (validateActivation obj b)
      (fun r t' s' => t' = t ∧ Keeps F i t s s' ∧
        (r = none → Authorized (s'.clusters t.cluster) b.uid rv)) t s := by
  refine robust_getLease fun r s₁ _ hk₁ hread => ?_
  cases r with
  | error e => exact fun s' hi _ => ⟨rfl, hk₁.trans hi.toKeeps, fun heq => (nomatch heq)⟩
  | ok l =>
    dsimp only
    split
    · exact fun s' hi _ => ⟨rfl, hk₁.trans hi.toKeeps, fun heq => (nomatch heq)⟩
    rename_i huid
    refine robust_now fun τ s₂ _ hk₂ => ?_
    split
    · exact fun s' hi _ => ⟨rfl, (hk₁.trans hk₂).trans hi.toKeeps, fun heq => (nomatch heq)⟩
    rename_i hact
    intro s' hi _
    refine ⟨rfl, (hk₁.trans hk₂).trans hi.toKeeps, fun _ => ?_⟩
    obtain ⟨s₀, h₀, hok₀, hl, h₁⟩ := (hread l rfl).2
    have hauth := Authorized.of_current (hok₀.clusters t.cluster).wf hl
      (activeAt_phase (by simpa using hact)) (Nat.le_trans hrv h₀.evolves.revision)
    rw [not_not.mp huid] at hauth
    exact hauth.evolves ((h₁.trans hk₂).trans hi.toKeeps).evolves

/-- The target that a passing CREATE asks for. -/
theorem requested_of_create {l : BerthLease} {user : String} {dry : Bool}
    (hf : Fetched c id (.object ⟨obj, none, user, dry⟩))
    (hval : validateManagedObject obj none b operator = none) (hkey : l.key = ⟨obj.ns, b.name⟩)
    (huid : l.uid = b.uid) (htar : targets l obj = true) (hspec : workloadSpec l.spec = none) :
    Requested c l obj.uid := by
  obtain ⟨p, o, hp, hw, _, hobj⟩ := hf
  obtain ⟨hname, hbind⟩ := validateManagedObject_binding hval
  obtain ⟨τ, hτ, hn, hv, hk⟩ := targets_target htar
  have hns := (Key.mk.inj hkey)
  have hokey : obj.key = o.key := by rw [hobj, defaulted_key]; rfl
  have hann : ∀ a, obj.annotation a = o.annotation a := fun a => by
    rw [Object.annotation, hobj, defaulted_metadata]
    rfl
  refine ⟨id, p, o, hp, hw, ?_, ?_, ?_, ⟨τ, hτ, ?_⟩, ?_⟩
  · rw [hobj, defaulted_uid]
    rfl
  · rw [← hann, hbind, huid]
  · rw [← hann, hname, hns.2]
  · rw [← hokey, targetKey, hv, hk, hn, hns.1]
    rfl
  · have hparts := ObjectKey.mk.inj hokey
    rw [← hparts.1, ← hparts.2.1, ← hv, ← hk]
    exact workloadSpec_kind hspec hτ

theorem robust_carried {α : Type} {a : α} {s₁ : Site ι cfg} (h : Carries s s₁) :
    Robust (discipline F cfg) i (.ret a) (fun _ t' s' => t' = t ∧ Carries s s') t s₁ :=
  fun _ hi _ => ⟨rfl, h.trans hi.carries⟩

theorem robust_recordTarget {user : String} {dry : Bool}
    (hf : Fetched (s.clusters t.cluster) id (.object ⟨obj, none, user, dry⟩))
    (hval : validateManagedObject obj none b operator = none) :
    Robust (discipline F cfg) i (recordTarget obj b dry)
      (fun _ t' s' => t' = t ∧ Carries s s') t s := by
  refine robust_getLease fun r s₁ _ hk₁ hread => ?_
  cases r with
  | error e => exact robust_carried hk₁.carries
  | ok l =>
    dsimp only
    split
    · exact robust_carried hk₁.carries
    rename_i hid
    split
    · exact robust_carried hk₁.carries
    rename_i htar
    split
    · exact robust_carried hk₁.carries
    rename_i hspec
    split
    · exact robust_carried hk₁.carries
    split
    · exact robust_carried hk₁.carries
    rename_i hrep
    refine robust_getObject fun r s₂ _ hk₂ _ => ?_
    have hc := hk₁.trans hk₂
    match r with
    | .ok _ => exact robust_carried hc.carries
    | .error (.other e) => exact robust_carried hc.carries
    | .error .conflict => exact robust_carried hc.carries
    | .error .notFound =>
      dsimp only
      split
      · exact robust_carried hc.carries
      obtain ⟨n, _, hr⟩ := (hread l rfl).2.read
      obtain ⟨hidle, hpods⟩ := replaceable_idle (l := l) (by simpa using hrep)
      have htar : targets l obj = true := by simpa using htar
      simp only [not_or, not_not] at hid
      have hreq := requested_of_create (hf.evolves hc.evolves) hval (hread l rfl).1
        hid.1 htar hspec
      obtain ⟨τ, hτ, _⟩ := targets_target htar
      refine robust_updateStatus (v := ⟨l, n⟩) (hr.keeps hk₂).mem rfl rfl
        (.record hidle hpods (by rw [hτ]; rfl) hreq rfl)
        (fun hact => (nomatch hact)) (fun hd => absurd hidle hd.1)
        fun r s₃ _ hc₃ _ => ?_
      exact robust_carried (hc.carries.trans hc₃)

section Managed

variable {req : AdmissionRequest} {user : String} {permit : Option (BerthLease × Time)}

/-- The binding is that of the object before an update. -/
def BindsAsBefore (req : AdmissionRequest) (b : Binding) : Prop :=
  ∀ old, req.old = some old → b.uid = old.annotation managedUID ∧
    b.name = old.annotation managedLease

/-- The postcondition of the handlers of managed objects. -/
def Judges (t : Task ι) (s : Site ι cfg) (req : AdmissionRequest) (verdict : Verdict)
    (t' : Task ι) (s' : Site ι cfg) : Prop :=
  t' = t ∧ Carries s s' ∧ Answers (.object req) verdict (s'.clusters t.cluster)

omit [DecidableEq ι] in
/-- A passing object keeps its binding; the rest is for the callers. -/
theorem Sanctioned.of_valid
    (hval : validateManagedObject req.object req.old b operator = none)
    (hb : BindsAsBefore req b)
    (hungated : ∀ old, req.old = some old → req.object.kind = "Pod" → old.pod.gateOn = true →
      req.object.pod.gateOn = false → ∃ l τ n, permit = some (l, τ) ∧ ⟨l, n⟩ ∈ c.versions ∧
        l.uid = b.uid ∧ activeAt l τ = true ∧ ⟨req.object.name, req.object.uid⟩ ∈ l.pods)
    (hactive : ∀ old, req.old = some old → req.object.kind ≠ "Pod" →
      increasesActivity req.object old = true → Authorized c b.uid old.resourceVersion) :
    Sanctioned c req b.uid permit := by
  obtain ⟨hname, hbind⟩ := validateManagedObject_binding hval
  refine ⟨fun hnone _ => ⟨hbind, fun hpod => ?_⟩, fun old hold _ => ?_, fun old hold _ => ?_,
    fun old hold _ => ?_⟩
  · have htemplate := (validateManagedObject_none hval).2.1 hpod
    exact validateGate_gateOn (validateTemplate_none htemplate).2.1 (.inr hnone)
  · exact ⟨hbind.trans (hb old hold).1, hname.trans (hb old hold).2⟩
  · rw [← (hb old hold).1]
    exact hungated old hold
  · rw [← (hb old hold).1]
    exact hactive old hold

theorem robust_handlePod (hpod : req.object.kind = "Pod")
    (hval : validateManagedObject req.object req.old b operator = none)
    (hb : BindsAsBefore req b) :
    Robust (discipline F cfg) i (handlePod req b)
      (Judges t s req) t s := by
  unfold handlePod
  split
  · refine Robust.bind (robust_validatePermit.mono ?_)
    rintro r t' s₁ _ ⟨rfl, hk₁, hread⟩
    cases r with
    | error e => exact fun s' hi _ => ⟨rfl, hk₁.carries.trans hi.carries, answers_denied⟩
    | ok read =>
      intro s' hi _
      refine ⟨rfl, hk₁.carries.trans hi.carries, ?_⟩
      rintro req' b' permit' heq hv
      cases heq
      cases hv
      obtain ⟨⟨n, hn⟩, huid, hact, hmem⟩ := hread read.1 read.2 rfl
      exact Sanctioned.of_valid hval hb (fun _ _ _ _ _ => ⟨read.1, read.2, n, rfl,
        hi.evolves.versions.subset hn, huid, hact, hmem⟩) fun _ _ hne => absurd hpod hne
  · next hgate =>
    intro s' hi _
    refine ⟨rfl, hi.carries, ?_⟩
    rintro req' b' permit' heq hv
    cases heq
    cases hv
    refine Sanctioned.of_valid hval hb (fun old hold _ hon hoff => ?_) fun _ _ hne => absurd hpod hne
    rw [hold, hoff] at hgate
    exact absurd (by simpa using hon) hgate

theorem robust_handleController (hpod : req.object.kind ≠ "Pod")
    (hf : Fetched (s.clusters t.cluster) id (.object req))
    (hval : validateManagedObject req.object req.old b operator = none)
    (hb : BindsAsBefore req b) :
    Robust (discipline F cfg) i (handleController req b)
      (Judges t s req) t s := by
  obtain ⟨object, old?, u, dry⟩ := req
  -- a Pod would be needed for a gate to go
  have hsanction : ∀ c, (∀ old, old? = some old → increasesActivity object old = true →
      Authorized c b.uid old.resourceVersion) →
      Answers (.object ⟨object, old?, u, dry⟩) (.allowed b.uid none) c := by
    rintro c hact req' b' permit' heq hv
    cases heq
    cases hv
    exact Sanctioned.of_valid hval hb (fun _ _ hp => absurd hp hpod) fun old hold _ => hact old hold
  cases old? with
  | some old =>
    have hrv : old.resourceVersion ≤ (s.clusters t.cluster).revision := by
      obtain ⟨_, _, _, _, _, _, _, _, _, hrv⟩ := hf
      exact hrv
    unfold handleController
    dsimp only
    split
    · refine Robust.bind ((robust_validateActivation hrv).mono ?_)
      rintro r t' s₁ _ ⟨rfl, hk₁, hauth⟩
      cases r with
      | some e => exact fun s' hi _ => ⟨rfl, hk₁.carries.trans hi.carries, answers_denied⟩
      | none =>
        intro s' hi _
        refine ⟨rfl, hk₁.carries.trans hi.carries, hsanction _ fun old' hold _ => ?_⟩
        cases hold
        exact (hauth rfl).evolves hi.evolves
    · next hinc =>
      intro s' hi _
      refine ⟨rfl, hi.carries, hsanction _ fun old' hold hinc' => ?_⟩
      cases hold
      exact absurd hinc' hinc
  | none =>
    unfold handleController
    refine Robust.bind ((robust_recordTarget hf hval).mono ?_)
    rintro r t' s₁ _ ⟨rfl, hc₁⟩
    cases r with
    | some e => exact fun s' hi _ => ⟨rfl, hc₁.trans hi.carries, answers_denied⟩
    | none => exact fun s' hi _ => ⟨rfl, hc₁.trans hi.carries, hsanction _ fun _ heq => (nomatch heq)⟩

theorem robust_handleManaged (hf : Fetched (s.clusters t.cluster) id (.object req))
    (hb : BindsAsBefore req b) :
    Robust (discipline F cfg) i (handleManaged user req b)
      (Judges t s req) t s := by
  unfold handleManaged
  split
  · exact fun s' hi _ => ⟨rfl, hi.carries, answers_denied⟩
  rename_i hval
  split
  · next hpod => exact robust_handlePod hpod hval hb
  · next hpod => exact robust_handleController hpod hf hval hb

/-- An admitted object is judged under its own binding. -/
theorem robust_requestBinding : Robust (discipline F cfg) i (requestBinding req)
    (fun r t' s' => t' = t ∧ Keeps F i t s s' ∧ ∀ old, req.old = some old →
      old.annotation managedUID ≠ "" →
      r = .ok ⟨old.annotation managedLease, old.annotation managedUID, old.uid⟩) t s := by
  unfold requestBinding
  split
  · next old hold =>
    split
    · intro s' hi _
      refine ⟨rfl, hi.toKeeps, fun old' hold' _ => ?_⟩
      rw [hold, Option.some.injEq] at hold'
      rw [hold']
    · next hann =>
      refine robust_gentle (gentle_resolveBinding 5 _) fun r s' hk _ => ⟨rfl, hk, ?_⟩
      intro old' hold' hne
      rw [hold, Option.some.injEq] at hold'
      exact absurd (hold' ▸ hne) hann
  · next hnone =>
    refine robust_gentle (gentle_resolveBinding 5 _) fun r s' hk _ => ⟨rfl, hk, ?_⟩
    intro old' hold'
    rw [hnone] at hold'
    cases hold'

theorem robust_handleObject (hf : Fetched (s.clusters t.cluster) id (.object req)) :
    Robust (discipline F cfg) i (handleObject user req)
      (Judges t s req) t s := by
  refine Robust.bind (robust_requestBinding.mono ?_)
  rintro r t' s₁ _ ⟨rfl, hk₁, hbind⟩
  cases r with
  | error e =>
    -- the object was not admitted before
    have hunbound : ∀ old, req.old = some old → old.annotation managedUID = "" :=
      fun old hold => by_contra fun hne => (nomatch hbind old hold hne)
    dsimp only
    split
    · exact fun s' hi _ => ⟨rfl, hk₁.carries.trans hi.carries, answers_unbound hunbound⟩
    · exact fun s' hi _ => ⟨rfl, hk₁.carries.trans hi.carries, answers_denied⟩
  | ok b =>
    dsimp only
    split
    · next hempty =>
      refine fun s' hi _ => ⟨rfl, hk₁.carries.trans hi.carries, answers_unbound fun old hold => ?_⟩
      by_contra hne
      have heq := hbind old hold hne
      cases heq
      exact hne hempty
    · split
      · next hnone =>
        refine (robust_handleManaged (hf.evolves hk₁.evolves) fun old hold => ?_).mono
          fun verdict t'' s' _ h => ⟨h.1, hk₁.carries.trans h.2.1, h.2.2⟩
        rw [hnone] at hold
        cases hold
      · next old hold =>
        split
        · next hann =>
          intro s' hi _
          refine ⟨rfl, hk₁.carries.trans hi.carries, ?_⟩
          rintro req' b' permit' heq hv
          cases heq
          unfold handleLegacy at hv
          split at hv
          · cases hv
          split at hv
          · cases hv
            refine answers_unbound (fun old' hold' => ?_) req _ _ rfl rfl
            rw [hold, Option.some.injEq] at hold'
            rw [← hold']
            exact hann
          · cases hv
        · next hann =>
          refine (robust_handleManaged (hf.evolves hk₁.evolves) fun old' hold' => ?_).mono
            fun verdict t'' s' _ h => ⟨h.1, hk₁.carries.trans h.2.1, h.2.2⟩
          rw [hold, Option.some.injEq] at hold'
          subst hold'
          have heq := hbind old hold hann
          cases heq
          exact ⟨rfl, rfl⟩

theorem robust_handle {review : Review} (hf : Fetched (s.clusters t.cluster) id review) :
    Robust (discipline F cfg) i (handle user review)
      (fun verdict t' s' => t' = t ∧ Carries s s' ∧
        Answers review verdict (s'.clusters t.cluster)) t s := by
  cases review with
  | object req => exact robust_handleObject hf
  | binding key uid node =>
    exact robust_gentle (gentle_validateBinding key uid) fun _ s' hk _ =>
      ⟨rfl, hk.carries, answers_binding⟩

end Managed

end Handler

end Berth.Operator
