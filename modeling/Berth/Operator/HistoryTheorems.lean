/-
Berth.Operator.HistoryTheorems — what stays of an admitted object.

One object from its CREATE on, through any requests that the webhook
allows. Nothing is assumed about what the webhook is told: leases and
owners may change between any two reads. An object that was admitted under
a binding keeps it, its template stays gated, and a Pod is ungated and
bound to a node only in the ways that berth has for that.
-/
import Berth.Operator.BindingTheorems

namespace Berth.Operator

open Berth.Interleave Berth.Lease

/-! ## Histories -/

/-- A request about a stored object. -/
inductive Change where
  | update (new : Object) (user : String)
  | bind (uid node : String)

/-- A request is stored in place of `o`: the webhook allows it on the
answers `evs`. The API server keeps an object's identity, and a binding is
checked against the Pod that is stored. -/
inductive Stores (operatorUser : String) (o : Object) :
    Change → List (Event ClusterSig) → Object → Prop where
  | update {new : Object} {user binding : String} {dryRun : Bool}
      {permit : Option (BerthLease × Time)} {evs : List (Event ClusterSig)}
      (hkey : new.key = o.key) (huid : new.uid = o.uid)
      (h : (handle operatorUser (.object ⟨new, some o, user, dryRun⟩)).Ran evs
        (.allowed binding permit)) : Stores operatorUser o (.update new user) evs new
  | bind {uid node binding : String} {permit : Option (BerthLease × Time)}
      {evs : List (Event ClusterSig)} (hpod : o.isPod = true)
      (hread : ∀ pod, (⟨.getObject o.key, .ok pod⟩ : Event ClusterSig) ∈ evs → pod = o)
      (h : (handle operatorUser (.binding ⟨o.ns, o.name⟩ uid node)).Ran evs
        (.allowed binding permit)) :
      Stores operatorUser o (.bind uid node) evs { o with pod := { o.pod with nodeName := node } }

/-- What becomes of an object through finitely many requests. -/
def Becoming (operatorUser : String) : Object → Object → Prop :=
  Relation.ReflTransGen fun o o' => ∃ ch evs, Stores operatorUser o ch evs o'

variable {operatorUser : String} {o₀ o o' : Object} {b : Binding} {ch : Change}
variable {evs : List (Event ClusterSig)}

/-! ## What stays -/

/-- The metadata carries the binding of `o₀`. -/
structure SameBinding (o₀ : Object) (m : Meta) : Prop where
  lease : m.annotation managedLease = o₀.annotation managedLease
  uid : m.annotation managedUID = o₀.annotation managedUID
  label : m.label managedUID = o₀.label managedUID

/-- What stays of an object that was admitted as `o₀`. -/
structure StaysBound (o₀ o : Object) : Prop where
  key : o.key = o₀.key
  uid : o.uid = o₀.uid
  metadata : SameBinding o₀ o.metadata
  template : o.kind ≠ "Pod" → ∃ t, o.template = some t ∧ SameBinding o₀ t.metadata ∧
    t.spec.gateOn = true ∧ t.spec.nodeName = ""
  jobTemplate : o.kind = "CronJob" → SameBinding o₀ o.jobTemplate
  owners : o.kind = "Pod" → o.ownerReferences = o₀.ownerReferences

/-- How a Pod that was admitted as `o₀` changes: the operator takes the gate
off while an active lease of the binding lists the Pod, and after that a
binding request with the Pod's UID sets the node. -/
structure Orderly (operatorUser : String) (o₀ o : Object) (ch : Change)
    (evs : List (Event ClusterSig)) (o' : Object) : Prop where
  gate : o.pod.gateOn = true → o'.pod.gateOn = false →
    (∃ new, ch = .update new operatorUser) ∧
    ∃ (l : BerthLease) (τ : Time),
      evs = [⟨.getLease ⟨o₀.ns, o₀.annotation managedLease⟩, .ok l⟩, ⟨.now, τ⟩] ∧
      l.uid = o₀.annotation managedUID ∧ activeAt l τ = true ∧
      registered l.pods o₀.name o₀.uid = true
  node : o'.pod.nodeName ≠ o.pod.nodeName → (∃ node, ch = .bind o₀.uid node) ∧ o.pod.gateOn = false

/-- Metadata that passes the check under the binding of `o₀`. -/
theorem SameBinding.of_valid {m : Meta} (h : validateMetadata m b = none)
    (h₀ : validateMetadata o₀.metadata b = none) : SameBinding o₀ m := by
  obtain ⟨hname, huid, hlabel⟩ := validateMetadata_none.mp h
  obtain ⟨hname₀, huid₀, hlabel₀⟩ := validateMetadata_none.mp h₀
  exact ⟨hname.trans hname₀.symm, huid.trans huid₀.symm, hlabel.trans hlabel₀.symm⟩

/-- An object that passes under the binding of `o₀` stays bound. -/
theorem StaysBound.of_valid {old : Option Object} {operator : Bool} (hkey : o.key = o₀.key)
    (huid : o.uid = o₀.uid) (h₀ : validateMetadata o₀.metadata b = none)
    (h : validateManagedObject o old b operator = none)
    (howners : o.kind = "Pod" → o.ownerReferences = o₀.ownerReferences) : StaysBound o₀ o := by
  obtain ⟨hmeta, _, htemplate⟩ := validateManagedObject_none h
  refine ⟨hkey, huid, .of_valid hmeta h₀, fun hne => ?_, fun hcron => ?_, howners⟩
  · obtain ⟨t, ht, htmeta, hrest⟩ := htemplate hne
    obtain ⟨hnode, hgate, _⟩ := validateTemplate_none hrest
    exact ⟨t, ht, .of_valid htmeta h₀, validateGate_gateOn hgate (.inl hne), hnode (.inl hne)⟩
  · obtain ⟨t, _, _, hrest⟩ := htemplate (by rw [hcron]; decide)
    exact .of_valid ((validateTemplate_none hrest).2.2 hcron) h₀

/-- The UPDATE of an object with a binding is judged under it. -/
theorem update_allowed {new : Object} {user binding : String} {dryRun : Bool}
    {permit : Option (BerthLease × Time)} (hne : o.annotation managedUID ≠ "")
    (h : (handle operatorUser (.object ⟨new, some o, user, dryRun⟩)).Ran evs
      (.allowed binding permit)) :
    (handleManaged operatorUser ⟨new, some o, user, dryRun⟩
      ⟨o.annotation managedLease, o.annotation managedUID, o.uid⟩).Ran evs
        (.allowed binding permit) := by
  unfold handle handleObject requestBinding at h
  dsimp only at h
  rw [if_pos hne] at h
  change Prog.Ran (if o.annotation managedUID = "" then _ else _) evs _ at h
  rw [if_neg hne, if_neg hne] at h
  exact h

/-- A binding of a managed Pod names it, and the Pod is ungated. -/
theorem binding_allowed {uid node binding : String} {permit : Option (BerthLease × Time)}
    (hne : o.annotation managedUID ≠ "") (hpod : o.isPod = true)
    (hread : ∀ pod, (⟨.getObject o.key, .ok pod⟩ : Event ClusterSig) ∈ evs → pod = o)
    (h : (handle operatorUser (.binding ⟨o.ns, o.name⟩ uid node)).Ran evs
      (.allowed binding permit)) : uid = o.uid ∧ o.pod.gateOn = false := by
  obtain ⟨r, evs₁, rfl, hk⟩ := Prog.Ran.of_perform h
  cases r with
  | error e => cases hk
  | ok pod =>
    have hkey : o.key = ⟨"v1", "Pod", o.ns, o.name⟩ := by
      simp only [Object.isPod, Bool.and_eq_true, beq_iff_eq] at hpod
      rw [Object.key, hpod.1, hpod.2]
    rw [hkey] at hread
    obtain rfl := hread pod List.mem_cons_self
    dsimp only at hk
    rw [if_neg hne] at hk
    split at hk
    · cases hk
    rename_i huid
    split at hk
    · cases hk
    · next hgate =>
      exact ⟨not_not.mp (not_or.mp huid).2, by simpa [hasGate] using hgate⟩

/-- One request. -/
theorem StaysBound.step (hmanaged : o₀.annotation managedUID ≠ "")
    (hlabel : o₀.label managedUID = o₀.annotation managedUID) (h : StaysBound o₀ o)
    (hs : Stores operatorUser o ch evs o') :
    StaysBound o₀ o' ∧ (o.kind = "Pod" → Orderly operatorUser o₀ o ch evs o') := by
  have hne : o.annotation managedUID ≠ "" := by
    rw [Object.annotation, h.metadata.uid]
    exact hmanaged
  have hkeys := ObjectKey.mk.inj h.key
  cases hs with
  | @update _ user _ _ _ _ hkey huid hran =>
    obtain ⟨hvalid, hpodran, _⟩ := handleManaged_allowed (update_allowed hne hran)
    have hkinds := ObjectKey.mk.inj hkey
    have hupdate : o'.kind = "Pod" → _ := fun hpod => validateGate_update
      (validateTemplate_none ((validateManagedObject_none hvalid).2.1 hpod)).2.1 hpod
    have h₀ : validateMetadata o₀.metadata
        ⟨o.annotation managedLease, o.annotation managedUID, o.uid⟩ = none :=
      validateMetadata_none.mpr ⟨h.metadata.lease.symm, h.metadata.uid.symm,
        hlabel.trans h.metadata.uid.symm⟩
    refine ⟨.of_valid (hkey.trans h.key) (huid.trans h.uid) h₀ hvalid fun hpod => ?_,
      fun hpod => ⟨fun hon hoff => ?_, fun hnode => ?_⟩⟩
    · exact (hupdate hpod).1.symm.trans (h.owners (hkinds.2.1 ▸ hpod))
    · have hpod' : o'.kind = "Pod" := hkinds.2.1.trans hpod
      have huser : user = operatorUser := by simpa using (hupdate hpod').2.2 hon hoff
      obtain ⟨l, τ, hevs, hl, hactive, hreg⟩ := (handlePod_allowed (hpodran hpod')).2 hon hoff
      refine ⟨⟨o', by rw [huser]⟩, l, τ, ?_, hl.trans h.metadata.uid, hactive, ?_⟩
      · rw [hevs, ← h.metadata.lease, ← hkeys.2.2.1, ← hkinds.2.2.1]
        rfl
      · rw [← hkeys.2.2.2, ← h.uid, ← hkinds.2.2.2, ← huid]
        exact hreg
    · exact absurd (hupdate (hkinds.2.1.trans hpod)).2.1.symm hnode
  | @bind uid node _ _ _ hpod hread hran =>
    obtain ⟨huid, hgate⟩ := binding_allowed hne hpod hread hran
    refine ⟨⟨h.key, h.uid, h.metadata, h.template, h.jobTemplate, h.owners⟩,
      fun _ => ⟨fun hon hoff => ?_, fun _ => ⟨⟨node, ?_⟩, hgate⟩⟩⟩
    · rw [hgate] at hon
      cases hon
    · rw [huid, h.uid]

/-- Managed bindings are immutable. An object that was created under a
binding keeps it, with the gated template of a controller and the owners of
a Pod, through any requests that the webhook allows; and every one of these
changes a Pod's gate and node only in an orderly way. -/
theorem binding_immutable {user binding : String} {dryRun : Bool}
    {permit : Option (BerthLease × Time)}
    (hcreate : (handle operatorUser (.object ⟨o₀, none, user, dryRun⟩)).Ran evs
      (.allowed binding permit)) (hbound : binding ≠ "") (h : Becoming operatorUser o₀ o) :
    StaysBound o₀ o ∧ ∀ ch evs o', Stores operatorUser o ch evs o' → o.kind = "Pod" →
      Orderly operatorUser o₀ o ch evs o' := by
  obtain ⟨_, b, _, _, rfl, hvalid⟩ := create_allowed hcreate
  obtain ⟨hname, huid, hlabel⟩ :=
    validateMetadata_none.mp (validateManagedObject_none (hvalid hbound)).1
  have hmanaged : o₀.annotation managedUID ≠ "" := fun hempty => hbound (huid.symm.trans hempty)
  have hstays : StaysBound o₀ o := by
    induction h with
    | refl =>
      exact .of_valid rfl rfl (validateManagedObject_none (hvalid hbound)).1 (hvalid hbound)
        fun _ => rfl
    | tail _ hs ih =>
      obtain ⟨ch, evs, hs⟩ := hs
      exact (ih.step hmanaged (hlabel.trans huid.symm) hs).1
  exact ⟨hstays, fun ch evs o' hs => (hstays.step hmanaged (hlabel.trans huid.symm) hs).2⟩

/-- The lease while it is held, with the Pod registered. -/
def listing : BerthLease :=
  nightly.withWorkload (some
    { targetUID := "target-1", phase := .active, deadline := some (10 * second)
      leaseName := "nightly", holder := "east", token := 1, pods := [⟨"web-0", "pod-1"⟩] })

def ungated : Object := { web0 with pod := {} }

def placed : Object := { ungated with pod := { ungated.pod with nodeName := "node-1" } }

theorem binding_immutable_placed :
    Becoming "operator" web0 placed ∧ placed.pod.nodeName = "node-1" ∧ StaysBound web0 placed := by
  have hcreate : (handle "operator" (.object ⟨web0, none, "user", false⟩)).Ran webReads
      (.allowed "lease-1" none) := Prog.ran_of_feed (by decide)
  have hungate : (handle "operator" (.object ⟨ungated, some web0, "operator", false⟩)).Ran
      [⟨.getLease nightly.key, .ok listing⟩, ⟨.now, (0 : Time)⟩]
      (.allowed "lease-1" (some (listing, 0))) := Prog.ran_of_feed (by decide)
  have hplace : (handle "operator" (.binding ⟨ungated.ns, ungated.name⟩ "pod-1" "node-1")).Ran
      [⟨.getObject ungated.key, .ok ungated⟩] (.allowed "" none) :=
    Prog.ran_of_feed (by decide)
  have hread : ∀ pod, (⟨.getObject ungated.key, .ok pod⟩ : Event ClusterSig) ∈
      ([⟨.getObject ungated.key, .ok ungated⟩] : List (Event ClusterSig)) → pod = ungated := by
    intro pod hpod
    cases List.mem_singleton.mp hpod
    rfl
  have hfirst : Becoming "operator" web0 ungated := .single ⟨_, _, .update rfl rfl hungate⟩
  have hruns : Becoming "operator" web0 placed :=
    hfirst.tail ⟨_, _, .bind (by decide) hread hplace⟩
  exact ⟨hruns, rfl, (binding_immutable hcreate (by decide) hruns).1⟩

end Berth.Operator
