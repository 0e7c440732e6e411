/-
Berth.Operator.BindingTheorems — which binding a new object gets.

`expectedBinding` walks from an object to the last supported controller
that owns it and asks for leases there, and only there
(`resolveBinding_yields`). So it is right about objects whose leases
target the end of the chain. A lease that targets a controller in the
middle is not found, and managed annotations of an object with an
unmanaged owner are not looked at. Both results say exactly when this
does no harm.
-/
import Berth.Operator.CleanupTheorems

namespace Berth.Operator

open Berth.Interleave Berth.Lease

variable {o x y : Object} {b : Binding} {evs : List (Event ClusterSig)}

/-! ## What is stored -/

/-- The leases and objects that are stored while a request is handled. The
API server gives every lease a UID. -/
structure Snapshot where
  leases : List BerthLease
  objects : List Object
  lease_uid : ∀ l ∈ leases, l.uid ≠ ""

namespace Snapshot

def object? (σ : Snapshot) (k : ObjectKey) : Option Object :=
  σ.objects.find? fun o => decide (o.key = k)

/-- A read is answered from what is stored, or it fails. -/
def tells (σ : Snapshot) : Event ClusterSig → Bool
  | ⟨.getObject k, .ok o⟩ => decide (σ.object? k = some o)
  | ⟨.getLease k, .ok l⟩ => decide (l ∈ σ.leases ∧ l.key = k)
  | ⟨.listLeases ns, .ok ls⟩ => decide (ls = σ.leases.filter fun l => l.ns == ns)
  | _ => true

/-- The controller-owner chain of an object: the object and every supported
controller that is reached from it. -/
inductive Chain (σ : Snapshot) : Object → Object → Prop where
  | self (o : Object) : Chain σ o o
  | owner {o parent x : Object} {r : OwnerReference} (href : controllerOwner o = some r)
      (hget : σ.object? ⟨r.apiVersion, r.kind, o.ns, r.name⟩ = some parent)
      (huid : parent.uid = r.uid) (h : Chain σ parent x) : Chain σ o x

/-- The lease is one of the namespace and names the object. -/
def Targets (σ : Snapshot) (l : BerthLease) (x : Object) (ns : String) : Prop :=
  l ∈ σ.leases ∧ l.ns = ns ∧ targets l x = true

/-- The walk over so many levels comes to its end at `x`. -/
inductive Ends (σ : Snapshot) : Nat → Object → Object → Prop where
  | here {n : Nat} {o : Object} (hend : controllerOwner o = none) : Ends σ (n + 1) o o
  | owner {n : Nat} {o parent x : Object} {r : OwnerReference} (href : controllerOwner o = some r)
      (hget : σ.object? ⟨r.apiVersion, r.kind, o.ns, r.name⟩ = some parent)
      (huid : parent.uid = r.uid) (h : Ends σ n parent x) : Ends σ (n + 1) o x

/-- The leases of the namespace that name the object. -/
def leasesOf (σ : Snapshot) (x : Object) : List BerthLease :=
  σ.leases.filter fun l => targets l x && l.ns == x.ns

variable {σ : Snapshot}

theorem mem_leasesOf {l : BerthLease} : l ∈ σ.leasesOf x ↔ σ.Targets l x x.ns := by
  rw [leasesOf, List.mem_filter, Bool.and_eq_true, beq_iff_eq, Targets]
  tauto

theorem object?_key {k : ObjectKey} (h : σ.object? k = some o) : o.key = k := by
  unfold object? at h
  simpa using List.find?_some h

theorem Chain.ns (h : σ.Chain o x) : x.ns = o.ns := by
  induction h with
  | self o => rfl
  | owner href hget huid h ih =>
    exact ih.trans (ObjectKey.mk.inj (object?_key hget)).2.2.1

theorem Ends.chain {n : Nat} (h : σ.Ends n o x) : σ.Chain o x ∧ controllerOwner x = none := by
  induction h with
  | here hend => exact ⟨.self _, hend⟩
  | owner href hget huid _ ih => exact ⟨.owner href hget huid ih.1, ih.2⟩

/-- A chain has one end. -/
theorem Chain.end_unique (hx : σ.Chain o x) (hy : σ.Chain o y) (hendx : controllerOwner x = none)
    (hendy : controllerOwner y = none) : x = y := by
  induction hx with
  | self o =>
    cases hy with
    | self => rfl
    | owner href _ _ _ =>
      rw [hendx] at href
      cases href
  | owner href hget _ _ ih =>
    cases hy with
    | self =>
      rw [hendy] at href
      cases href
    | owner href' hget' _ hy =>
      cases href.symm.trans href'
      cases hget.symm.trans hget'
      exact ih hy hendx

end Snapshot

/-! ## The end of the chain -/

/-- `resolveBinding` asks for leases of this object, if it has no supported
controller owner. -/
def consults (o : Object) : Bool := supportedController o.apiVersion o.kind && o.kind != "Job"

/-- Nothing is found at the object, and nothing there says that something
should be. -/
def Snapshot.Silent (σ : Snapshot) (x : Object) : Prop :=
  x.annotation managedUID = "" ∧ x.annotation managedLease = "" ∧
    (consults x = true → σ.leasesOf x = [])

/-- One lease is found at the object. -/
def Snapshot.Sole (σ : Snapshot) (l : BerthLease) (x : Object) : Prop :=
  consults x = true ∧ σ.leasesOf x = [l]

/-- What the leases that name an object come to. -/
def bindingOf (o : Object) : List BerthLease → Except Err Binding
  | [] => .ok {}
  | [l] => .ok ⟨l.name, l.uid, o.uid⟩
  | _ => .error (.new "multiple BerthLeases refer to the same target")

theorem findBinding_found {ls : List BerthLease} {found : Binding} (hne : found.uid ≠ "") :
    findBinding o ls found = if ls.filter (targets · o) = [] then .ok found
      else .error (.new "multiple BerthLeases refer to the same target") := by
  induction ls with
  | nil => rfl
  | cons l ls ih =>
    unfold findBinding
    split
    · next hl =>
      rw [List.filter_cons_of_pos (p := (targets · o)) hl, if_neg (List.cons_ne_nil _ _)]
    · next hl => rw [List.filter_cons_of_neg (p := (targets · o)) hl, ih]

theorem findBinding_eq {ls : List BerthLease} (huid : ∀ l ∈ ls, l.uid ≠ "") :
    findBinding o ls {} = bindingOf o (ls.filter (targets · o)) := by
  induction ls with
  | nil => rfl
  | cons l ls ih =>
    unfold findBinding
    split
    · next hl =>
      rw [if_neg (not_not.mpr rfl), findBinding_found (huid l List.mem_cons_self),
        List.filter_cons_of_pos (p := (targets · o)) hl]
      cases ls.filter (targets · o) <;> rfl
    · next hl =>
      rw [List.filter_cons_of_neg (p := (targets · o)) hl]
      exact ih fun m hm => huid m (List.mem_cons_of_mem _ hm)

theorem noBinding_ok_iff : noBinding o = .ok b ↔
    b = {} ∧ o.annotation managedUID = "" ∧ o.annotation managedLease = "" := by
  unfold noBinding
  split
  · next hann =>
    refine ⟨nofun, fun h => absurd hann ?_⟩
    simp [h.2.1, h.2.2]
  · next hann =>
    simp only [not_or, not_not] at hann
    exact ⟨fun h => ⟨(Except.ok.inj h).symm, hann⟩, fun h => by rw [h.1]⟩

section Resolve

variable {σ : Snapshot}

/-- At an object without an owner the result is that nothing is found, or
the one lease that names the object. -/
theorem rootBinding_yields : (rootBinding x).Yields (σ.tells · = true) (.ok b) ↔
    b = {} ∧ σ.Silent x ∨ ∃ l, b = ⟨l.name, l.uid, x.uid⟩ ∧ σ.Sole l x := by
  unfold rootBinding
  split
  · next hcons =>
    have hfind : findBinding x (σ.leases.filter fun l => l.ns == x.ns) {} =
        bindingOf x (σ.leasesOf x) := by
      rw [findBinding_eq fun l hl => σ.lease_uid l (List.mem_of_mem_filter hl),
        List.filter_filter, Snapshot.leasesOf]
    have huid : ∀ l, σ.leasesOf x = [l] → l.uid ≠ "" := fun l hl =>
      σ.lease_uid l (Snapshot.mem_leasesOf.mp (hl ▸ List.mem_cons_self)).1
    rw [show listLeases x.ns = Prog.perform (S := ClusterSig) (.listLeases x.ns) from rfl]
    refine Prog.yields_perform.trans ⟨?_, ?_⟩
    · rintro ⟨r, htells, hk⟩
      cases r with
      | error e => cases hk
      | ok ls =>
        obtain rfl : ls = _ := of_decide_eq_true htells
        dsimp only at hk
        rw [hfind] at hk
        cases hls : σ.leasesOf x with
        | nil =>
          rw [hls] at hk
          obtain ⟨rfl, hann⟩ := noBinding_ok_iff.mp hk
          exact .inl ⟨rfl, hann.1, hann.2, fun _ => hls⟩
        | cons l rest =>
          rw [hls] at hk
          cases rest with
          | nil =>
            dsimp only [bindingOf] at hk
            rw [if_pos (huid l hls)] at hk
            cases hk
            exact .inr ⟨l, rfl, hcons, hls⟩
          | cons => cases hk
    · rintro (⟨rfl, huid', hname, hnone⟩ | ⟨l, rfl, -, hls⟩)
      · refine ⟨.ok _, decide_eq_true rfl, ?_⟩
        dsimp only
        rw [hfind, hnone hcons]
        exact noBinding_ok_iff.mpr ⟨rfl, huid', hname⟩
      · refine ⟨.ok _, decide_eq_true rfl, ?_⟩
        dsimp only
        rw [hfind, hls]
        dsimp only [bindingOf]
        rw [if_pos (huid l hls)]
        rfl
  · next hcons =>
    constructor
    · intro h
      obtain ⟨rfl, hann⟩ := noBinding_ok_iff.mp h
      exact .inl ⟨rfl, hann.1, hann.2, fun hc => absurd hc hcons⟩
    · rintro (⟨rfl, huid, hname, -⟩ | ⟨_, _, hc, _⟩)
      · exact noBinding_ok_iff.mpr ⟨rfl, huid, hname⟩
      · exact absurd hc hcons

/-- The binding is the one of the end of the chain. -/
theorem resolveBinding_yields {n : Nat} :
    (resolveBinding n o).Yields (σ.tells · = true) (.ok b) ↔
      ∃ x, σ.Ends n o x ∧ (rootBinding x).Yields (σ.tells · = true) (.ok b) := by
  induction n generalizing o with
  | zero => exact ⟨nofun, fun ⟨_, h, _⟩ => nomatch h⟩
  | succ n ih =>
    unfold resolveBinding
    cases href : controllerOwner o with
    | none =>
      refine ⟨fun h => ⟨o, .here href, h⟩, ?_⟩
      rintro ⟨x, hends, h⟩
      cases hends with
      | here => exact h
      | owner href' => cases href.symm.trans href'
    | some r =>
      refine Prog.yields_perform.trans ⟨?_, ?_⟩
      · rintro ⟨ans, htells, hk⟩
        cases ans with
        | error e => cases hk
        | ok parent =>
          dsimp only at hk
          split at hk
          · cases hk
          · next huid =>
            obtain ⟨x, hends, h⟩ := ih.mp hk
            exact ⟨x, .owner href (of_decide_eq_true htells) (not_not.mp huid) hends, h⟩
      · rintro ⟨x, hends, h⟩
        cases hends with
        | here hend => cases href.symm.trans hend
        | owner href' hget huid hends =>
          cases href.symm.trans href'
          refine ⟨.ok _, decide_eq_true hget, ?_⟩
          dsimp only
          rw [if_neg (not_not.mpr huid)]
          exact ih.mpr ⟨x, hends, h⟩

/-- What `expectedBinding` can return without an error. -/
theorem expectedBinding_yields :
    (∃ evs, (expectedBinding o).Ran evs (.ok b) ∧ ∀ e ∈ evs, σ.tells e = true) ↔
      ∃ x, σ.Ends 5 o x ∧
        (b = {} ∧ σ.Silent x ∨ ∃ l, b = ⟨l.name, l.uid, x.uid⟩ ∧ σ.Sole l x) := by
  rw [expectedBinding, ← Prog.yields_iff, resolveBinding_yields]
  simp only [rootBinding_yields]

end Resolve

/-! ## The handler -/

/-- A permit rests on one read of the lease and one of the clock. -/
theorem validatePermit_ran {read : BerthLease × Time} (h : (validatePermit o b).Ran evs (.ok read)) :
    ∃ (l : BerthLease) (τ : Time), evs = [⟨.getLease ⟨o.ns, b.name⟩, .ok l⟩, ⟨.now, τ⟩] ∧
      l.uid = b.uid ∧ activeAt l τ = true ∧ registered l.pods o.name o.uid = true := by
  obtain ⟨r, evs₁, rfl, hk⟩ := Prog.Ran.of_perform h
  cases r with
  | error e => cases hk
  | ok l =>
    dsimp only at hk
    split at hk
    · cases hk
    rename_i huid
    obtain ⟨τ, evs₂, rfl, hk₁⟩ := Prog.Ran.of_perform hk
    split at hk₁
    · cases hk₁
    rename_i hactive
    split at hk₁
    · cases hk₁
    · next hreg =>
      obtain ⟨rfl, _⟩ := hk₁.of_ret
      exact ⟨l, τ, rfl, not_not.mp huid, by simpa using hactive, by simpa using hreg⟩

theorem handleController_allowed {req : AdmissionRequest} {binding : String}
    {permit : Option (BerthLease × Time)}
    (h : (handleController req b).Ran evs (.allowed binding permit)) : binding = b.uid := by
  unfold handleController at h
  split at h
  · split at h
    · obtain ⟨_, _, r, _, _, hk⟩ := Prog.Ran.of_bind h
      cases r with
      | some e => cases hk
      | none =>
        cases hk
        rfl
    · cases h
      rfl
  · obtain ⟨_, _, r, _, _, hk⟩ := Prog.Ran.of_bind h
    cases r with
    | some e => cases hk
    | none =>
      cases hk
      rfl

/-- The gate of a Pod goes on the word of an active lease that lists it. -/
theorem handlePod_allowed {req : AdmissionRequest} {binding : String}
    {permit : Option (BerthLease × Time)} (h : (handlePod req b).Ran evs (.allowed binding permit)) :
    binding = b.uid ∧ (req.old.any (·.pod.gateOn) = true → req.object.pod.gateOn = false →
      ∃ (l : BerthLease) (τ : Time),
        evs = [⟨.getLease ⟨req.object.ns, b.name⟩, .ok l⟩, ⟨.now, τ⟩] ∧
        l.uid = b.uid ∧ activeAt l τ = true ∧
        registered l.pods req.object.name req.object.uid = true) := by
  unfold handlePod at h
  split at h
  · obtain ⟨evs₁, evs₂, r, rfl, hpermit, hk⟩ := Prog.Ran.of_bind h
    cases r with
    | error e => cases hk
    | ok read =>
      cases hk
      rw [List.append_nil]
      exact ⟨rfl, fun _ _ => validatePermit_ran hpermit⟩
  · next hgate =>
    cases h
    refine ⟨rfl, fun hold hnew => ?_⟩
    rw [hold, hnew] at hgate
    exact absurd rfl hgate

/-- What an object under a binding has gone through. -/
theorem handleManaged_allowed {operatorUser : String} {req : AdmissionRequest} {binding : String}
    {permit : Option (BerthLease × Time)}
    (h : (handleManaged operatorUser req b).Ran evs (.allowed binding permit)) :
    validateManagedObject req.object req.old b (req.user == operatorUser) = none ∧
      (req.object.kind = "Pod" → (handlePod req b).Ran evs (.allowed binding permit)) ∧
      binding = b.uid := by
  unfold handleManaged at h
  split at h
  · cases h
  rename_i hvalid
  split at h
  · next hpod => exact ⟨hvalid, fun _ => h, (handlePod_allowed h).1⟩
  · next hpod => exact ⟨hvalid, fun hp => absurd hp hpod, handleController_allowed h⟩

/-- What an allowed CREATE has gone through. -/
theorem create_allowed {operatorUser user binding : String} {dryRun : Bool}
    {permit : Option (BerthLease × Time)}
    (h : (handle operatorUser (.object ⟨o, none, user, dryRun⟩)).Ran evs (.allowed binding permit)) :
    ∃ evs' b, (expectedBinding o).Ran evs' (.ok b) ∧ evs' ⊆ evs ∧ binding = b.uid ∧
      (b.uid ≠ "" → validateManagedObject o none b (user == operatorUser) = none) := by
  obtain ⟨evs₁, evs₂, r, rfl, hbind, hk⟩ := Prog.Ran.of_bind h
  cases r with
  | error e => cases hk
  | ok b =>
    refine ⟨evs₁, b, hbind, List.subset_append_left _ _, ?_⟩
    dsimp only at hk
    split at hk
    · next hempty =>
      cases hk
      exact ⟨hempty.symm, fun hne => absurd hempty hne⟩
    · obtain ⟨hvalid, _, hbinding⟩ := handleManaged_allowed hk
      exact ⟨hbinding, fun _ => hvalid⟩

/-! ## Binding resolution -/

variable {σ : Snapshot}

/-- A lease, and the set that it targets. -/
def webStore : Snapshot := ⟨[nightly], [web], by decide⟩

/-- The reads for a new Pod of the set. -/
def webReads : List (Event ClusterSig) :=
  [⟨.getObject web.key, .ok web⟩, ⟨.listLeases "jobs", .ok [nightly]⟩]

theorem chain_web0 (h : webStore.Chain web0 x) : x = web0 ∨ x = web := by
  cases h with
  | self => exact .inl rfl
  | owner href hget _ h =>
    cases href
    cases hget
    cases h with
    | self => exact .inr rfl
    | owner href _ _ _ => cases href

theorem ends_web0 {n : Nat} (h : webStore.Ends n web0 x) : x = web := by
  obtain ⟨hchain, hend⟩ := h.chain
  rcases chain_web0 hchain with rfl | rfl
  · exact absurd hend (by decide)
  · rfl

theorem leasesOf_web : webStore.leasesOf web = [nightly] := by decide

theorem not_silent_web : ¬ webStore.Silent web := by
  rintro ⟨-, -, hnone⟩
  have hnil := hnone (by decide)
  rw [leasesOf_web] at hnil
  cases hnil

/-- A lease whose target has an owner. -/
def pinned : BerthLease :=
  { nightly with spec := { nightly.spec with target := some ⟨"apps/v1", "ReplicaSet", "web-1"⟩ } }

def deployment : Object :=
  { apiVersion := "apps/v1", kind := "Deployment", ns := "jobs", name := "web", uid := "deployment-1" }

def replicaSet : Object :=
  { apiVersion := "apps/v1", kind := "ReplicaSet", ns := "jobs", name := "web-1", uid := "set-1"
    ownerReferences := [⟨"apps/v1", "Deployment", "web", "deployment-1", some true, some true⟩] }

/-- A Pod of the replica set, with nothing that berth adds. -/
def bare : Object :=
  { apiVersion := "v1", kind := "Pod", ns := "jobs", name := "web-1-0", uid := "pod-2"
    ownerReferences := [⟨"apps/v1", "ReplicaSet", "web-1", "set-1", some true, some true⟩] }

/-- The reads for a Pod of the replica set, with the leases listed. -/
def setReads (l : BerthLease) : List (Event ClusterSig) :=
  [⟨.getObject replicaSet.key, .ok replicaSet⟩, ⟨.getObject deployment.key, .ok deployment⟩,
   ⟨.listLeases "jobs", .ok [l]⟩]

/-- The object names the lease; a Pod has the gate. -/
def Object.Carries (o : Object) (l : BerthLease) : Prop :=
  o.annotation managedLease = l.name ∧ o.annotation managedUID = l.uid ∧
    (o.kind = "Pod" → o.pod.gateOn = true)

/-- A CREATE of an object for which nothing is found is allowed. -/
theorem create_unmanaged {operatorUser user : String} {dryRun : Bool}
    (h : (expectedBinding o).Ran evs (.ok {})) :
    (handle operatorUser (.object ⟨o, none, user, dryRun⟩)).Ran evs (.allowed "" none) := by
  rw [← List.append_nil evs]
  exact Prog.Ran.bind (p := requestBinding ⟨o, none, user, dryRun⟩) h (.ret _)

/-- A new object with managed annotations is admitted only with the
binding of the lease that targets the end of its chain, and a Pod only
with the gate, exactly when the walk does not end without an error at an
object where nothing is found. (A Job is never asked for leases: if a
lease names one all the same, an object that carries that lease and the
gate is bound to it although nothing is found.) -/
theorem binding_not_forged_iff
    (hann : o.annotation managedUID ≠ "" ∨ o.annotation managedLease ≠ "") :
    (∀ operatorUser user dryRun evs binding permit,
      (handle operatorUser (.object ⟨o, none, user, dryRun⟩)).Ran evs (.allowed binding permit) →
      (∀ e ∈ evs, σ.tells e = true) →
      ∃ x l, σ.Chain o x ∧ controllerOwner x = none ∧ σ.Targets l x o.ns ∧ o.Carries l) ↔
    ¬ ∃ x, x ≠ o ∧ σ.Ends 5 o x ∧ σ.Silent x ∧ ∀ l, σ.Targets l x o.ns → ¬ o.Carries l := by
  constructor
  · rintro hbound ⟨x, -, hends, hsilent, hnone⟩
    obtain ⟨evs, hran, htells⟩ := expectedBinding_yields.mpr ⟨x, hends, .inl ⟨rfl, hsilent⟩⟩
    obtain ⟨y, l, hy, hend, htar, hcarries⟩ :=
      hbound "" "" false evs "" none (create_unmanaged hran) htells
    obtain rfl := hy.end_unique hends.chain.1 hend hends.chain.2
    exact hnone l htar hcarries
  · intro hcond operatorUser user dryRun evs binding permit h htells
    obtain ⟨evs₁, b, hbind, hsub, -, hvalid⟩ := create_allowed h
    obtain ⟨x, hends, hfound⟩ :=
      expectedBinding_yields.mp ⟨evs₁, hbind, fun e he => htells e (hsub he)⟩
    obtain ⟨hx, hend⟩ := hends.chain
    rcases hfound with ⟨rfl, hsilent⟩ | ⟨l, rfl, hsole⟩
    · -- nothing was found, so the condition names the lease
      have hother : x ≠ o := by
        rintro rfl
        exact hann.elim (absurd hsilent.1) (absurd hsilent.2.1)
      by_contra hno
      exact hcond ⟨x, hother, hends, hsilent, fun l hl hc => hno ⟨x, l, hx, hend, hl, hc⟩⟩
    · have htar := Snapshot.mem_leasesOf.mp (hsole.2 ▸ List.mem_cons_self (a := l))
      have hpass := hvalid (σ.lease_uid l htar.1)
      obtain ⟨hname, huid⟩ := validateManagedObject_binding hpass
      refine ⟨x, l, hx, hend, hx.ns ▸ htar, hname, huid, fun hpod => ?_⟩
      exact validateGate_gateOn
        (validateTemplate_none ((validateManagedObject_none hpass).2.1 hpod)).2.1 (.inr rfl)

theorem binding_not_forged_web0 :
    ∃ x l, webStore.Chain web0 x ∧ controllerOwner x = none ∧ webStore.Targets l x web0.ns ∧
      web0.Carries l := by
  have hran : (handle "operator" (.object ⟨web0, none, "user", false⟩)).Ran webReads
      (.allowed "lease-1" none) := Prog.ran_of_feed (by decide)
  refine (binding_not_forged_iff (.inl (by decide))).mpr ?_ "operator" "user" false webReads
    "lease-1" none hran (by decide)
  rintro ⟨x, -, hends, hsilent, -⟩
  exact not_silent_web (ends_web0 hends ▸ hsilent)

/-- A Pod of an unmanaged replica set that claims to be bound, without a
gate. -/
def impostor : Object := { bare with metadata := boundTo nightly }

/-- The lease, and controllers that it has nothing to do with. -/
def otherStore : Snapshot := ⟨[nightly], [deployment, replicaSet], by decide⟩

theorem chain_impostor (h : otherStore.Chain impostor x) :
    x = impostor ∨ x = replicaSet ∨ x = deployment := by
  cases h with
  | self => exact .inl rfl
  | owner href hget _ h =>
    cases href
    cases hget
    cases h with
    | self => exact .inr (.inl rfl)
    | owner href hget _ h =>
      cases href
      cases hget
      cases h with
      | self => exact .inr (.inr rfl)
      | owner href _ _ _ => cases href

/-- A managed annotation on an object with an unmanaged owner is
admitted. -/
theorem binding_forged_under_owner :
    (∃ evs, (handle "operator" (.object ⟨impostor, none, "user", false⟩)).Ran evs
        (.allowed "" none) ∧ ∀ e ∈ evs, otherStore.tells e = true) ∧
      impostor.annotation managedUID = "lease-1" ∧ impostor.pod.gateOn = false ∧
      ∀ x l, otherStore.Chain impostor x → ¬ otherStore.Targets l x "jobs" := by
  refine ⟨⟨setReads nightly, Prog.ran_of_feed (by decide), by decide⟩,
    by decide, by decide, ?_⟩
  intro x l hchain hl
  rw [List.mem_singleton.mp hl.1] at hl
  rcases chain_impostor hchain with rfl | rfl | rfl
  all_goals exact absurd hl.2.2 (by decide)

end Berth.Operator
