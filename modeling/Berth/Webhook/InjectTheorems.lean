/-
Berth.Webhook.InjectTheorems — who can write the state volume of a Pod
that went through `Default`.

On creation every container was written by the Pod's author, so no name
exempts it: writable mounts at the state directory are repaired, others
refused, and the helpers `mutate` puts in front are the only writers
(`only_helpers_write`). What else happens to the Pod is `Pod.Kept`.

On the `ephemeralcontainers` path the helpers' names are exempt. That is
sound for a name the Pod really uses, since container names are unique
(`ephemeral_read_only_iff`); startup-gate leaves the sidecar's name free,
and an ephemeral container can take it (`ephemeral_claims_sidecar`).
-/
import Berth.Webhook.ProbeTheorems

namespace Berth.Webhook

open Berth.Acquire Berth.Checks Berth.Lease

/-! ## Writers -/

/-- A writable mount of the state volume. -/
def VolumeMount.writesState (m : VolumeMount) : Bool := m.name == volumeName && !m.readOnly

/-- The container can write the state volume. -/
def Container.writesState (c : Container) : Bool := c.volumeMounts.any (·.writesState)

theorem Container.writesState_eq_false {c : Container} :
    c.writesState = false ↔ ∀ m ∈ c.volumeMounts, m.writesState = false := by
  simp [Container.writesState]

/-- A mount of the author's after the repair. -/
inductive VolumeMount.Repaired (stateDir : String) : VolumeMount → VolumeMount → Prop
  | same {m : VolumeMount} (h : m.writesState = false) : Repaired stateDir m m
  | readOnly {m : VolumeMount} (h : m.writesState = true) (hpath : m.mountPath = stateDir) :
    Repaired stateDir m { m with readOnly := true }

theorem VolumeMount.Repaired.writesState {stateDir : String} {m m' : VolumeMount}
    (h : VolumeMount.Repaired stateDir m m') : m'.writesState = false := by
  cases h with
  | same h => exact h
  | readOnly => simp [VolumeMount.writesState]

/-- A container of the author's after the repair: its mounts in their
order, and nothing else touched. -/
def Container.Repaired (stateDir : String) (c c' : Container) : Prop :=
  ∃ ms, List.Forall₂ (VolumeMount.Repaired stateDir) c.volumeMounts ms ∧
    c' = { c with volumeMounts := ms }

theorem Container.Repaired.writesState {stateDir : String} {c c' : Container}
    (h : Container.Repaired stateDir c c') : c'.writesState = false := by
  obtain ⟨ms, hms, rfl⟩ := h
  exact Container.writesState_eq_false.mpr
    (forall_mem_of_forall₂ hms fun _ _ hm => hm.writesState)

namespace PodInjector

variable {i : PodInjector} {req : Option Request} {pod pod' : Pod} {r : Resolved}
variable {c c' : Container}

/-! ## The check of the state volume -/

theorem checkMount_ok {container : String} {m m' : VolumeMount}
    (h : i.checkMount false container m = .ok m') :
    VolumeMount.Repaired i.cfg.stateDir m m' := by
  unfold checkMount at h
  split at h
  · next hkeep =>
    cases h
    refine .same ?_
    rcases hkeep with hname | hro
    · simp [VolumeMount.writesState, hname]
    · simp [VolumeMount.writesState, hro]
  · next hwrites =>
    split at h
    · next hpath =>
      cases h
      refine .readOnly ?_ hpath.2
      simpa [VolumeMount.writesState] using hwrites
    · cases h

theorem checkContainer_ok (h : i.checkContainer false c = .ok c') :
    Container.Repaired i.cfg.stateDir c c' := by
  have howned : owned false c.name = false := rfl
  simp only [checkContainer, howned, Bool.false_eq_true, if_false, bind_eq_ok, pure_eq_ok,
    mapM_eq_ok] at h
  obtain ⟨ms, hms, rfl⟩ := h
  exact ⟨ms, hms.imp fun _ _ => checkMount_ok, rfl⟩

/-- A container the check for ephemeral containers lets through. -/
theorem checkEphemeral_none {b : Bool} {c : Container} (h : checkEphemeral b c = none) :
    owned b c.name = true ∨ c.writesState = false := by
  unfold checkEphemeral at h
  split at h
  · next howned => exact .inl howned
  refine .inr (Container.writesState_eq_false.mpr fun m hm => ?_)
  have hcheck := List.findSome?_eq_none_iff.mp h m hm
  rw [refuse_eq_none] at hcheck
  simpa [VolumeMount.writesState] using hcheck

theorem checkStateVolumeMounts_ok {b : Bool} (h : i.checkStateVolumeMounts pod b = .ok pod') :
    ∃ cs is, List.Forall₂ (fun c c' => i.checkContainer b c = .ok c') pod.containers cs ∧
      List.Forall₂ (fun c c' => i.checkContainer b c = .ok c') pod.initContainers is ∧
      (∀ c ∈ pod.ephemeralContainers, owned b c.name = true ∨ c.writesState = false) ∧
      pod' = { pod with containers := cs, initContainers := is } := by
  simp only [checkStateVolumeMounts, bind_eq_ok, pure_eq_ok, mapM_eq_ok, pass_eq_ok,
    List.findSome?_eq_none_iff] at h
  obtain ⟨cs, hcs, is, his, -, heph, rfl⟩ := h
  exact ⟨cs, is, hcs, his, fun c hc => checkEphemeral_none (heph c hc), rfl⟩

/-! ## `Default` on its two paths -/

theorem default_ephemeral (hns : i.isControlPlane (requestNamespace req pod) = false)
    (hopt : pod.optedIn = true) (hpath : onEphemeralPath req = true)
    (h : i.default req pod = .ok pod') :
    ∀ c ∈ pod.ephemeralContainers, isInjectorOwnedContainer c.name = true ∨
      c.writesState = false := by
  simp only [default, hns, hopt, hpath, Bool.false_eq_true, Bool.true_eq_false, or_self, if_false,
    if_true, bind_eq_ok, pure_eq_ok] at h
  obtain ⟨q, hq, rfl⟩ := h
  obtain ⟨cs, is, -, -, heph, -⟩ := checkStateVolumeMounts_ok hq
  simpa [owned] using heph

theorem default_create (hns : i.isControlPlane (requestNamespace req pod) = false)
    (hopt : pod.optedIn = true) (hpath : onEphemeralPath req = false)
    (h : i.default req pod = .ok pod') :
    ∃ q r, i.checkStateVolumeMounts pod false = .ok q ∧
      i.resolve q (requestNamespace req pod) = .ok r ∧ i.preflight q r = none ∧
      pod' = i.mutate q r := by
  simp only [default, hns, hopt, hpath, Bool.false_eq_true, Bool.true_eq_false, or_self, if_false,
    bind_eq_ok, pure_eq_ok, pass_eq_ok] at h
  obtain ⟨q, hq, r, hr, -, hpre, rfl⟩ := h
  exact ⟨q, r, hq, hr, hpre, rfl⟩

/-! ## Preflight -/

theorem preflight_none (h : i.preflight pod r = none) :
    (∀ c ∈ pod.initContainers ++ pod.containers, c.name ∉ reserved r) ∧
      (∀ v ∈ pod.volumes, v.name = volumeName → v.emptyDir ≠ none) ∧
      (r.mode = .runtimeSingleton → ∀ c ∈ pod.containers, c.livenessProbe = none) := by
  simp only [preflight, Option.orElse_eq_none, List.findSome?_eq_none_iff, refuse_eq_none] at h
  obtain ⟨hnames, -, hempty, -, -, hrun⟩ := h
  refine ⟨fun c hc hres => ?_, fun v hv hname hnone => hempty v hv ⟨hname, hnone⟩, ?_⟩
  · refine hnames c.name hres ?_
    simp only [hasContainerNamed, List.any_eq_true, beq_iff_eq]
    rcases List.mem_append.mp hc with hc | hc
    · exact .inl ⟨c, hc, rfl⟩
    · exact .inr ⟨c, hc, rfl⟩
  · intro hmode c hc
    rw [if_pos hmode, List.findSome?_eq_none_iff] at hrun
    have hcheck := hrun c hc
    simp only [preflightContainer, Option.orElse_eq_none, refuse_eq_none, not_not] at hcheck
    exact hcheck.1

/-! ## Mutation -/

theorem helpers_names (i : PodInjector) (r : Resolved) :
    (i.helpers r).map (·.name) = reserved r := by
  unfold helpers reserved
  split <;> rfl

theorem helpers_writesState {c : Container} (h : c ∈ i.helpers r) : c.writesState = true := by
  have hmounts : c.volumeMounts = i.helperMounts := by
    unfold helpers at h
    split at h
    · rcases List.mem_cons.mp h with rfl | h
      · rfl
      · rw [List.mem_singleton.mp h]
        rfl
    · rw [List.mem_singleton.mp h]
      rfl
  rw [Container.writesState, hmounts]
  rfl

/-- The volumes `mutate` may append. -/
def ownVolumes (i : PodInjector) : List Volume :=
  { name := volumeName, emptyDir := some "" } :: i.authVolumeMounts.1

theorem ownVolumes_emptyDir {v : Volume} (h : v ∈ i.ownVolumes) (hname : v.name = volumeName) :
    v.emptyDir ≠ none := by
  rcases List.mem_cons.mp h with rfl | h
  · simp
  -- the auth volumes have names of their own
  exfalso
  simp only [authVolumeMounts, List.mem_append] at h
  rcases h with h | h
  · split at h
    · rw [List.mem_singleton.mp h] at hname
      exact absurd (show authTokenVolume = volumeName from hname) (by decide)
    · exact absurd h List.not_mem_nil
  · split at h
    · rw [List.mem_singleton.mp h] at hname
      exact absurd (show authCABundleVolume = volumeName from hname) (by decide)
    · exact absurd h List.not_mem_nil

/-- Volumes are only ever appended, and a name asked for is there
afterwards. -/
theorem foldl_addVolume (vs : List Volume) (pod : Pod) :
    ∃ added, (∀ v ∈ added, v ∈ vs) ∧
      vs.foldl addVolume pod = { pod with volumes := pod.volumes ++ added } ∧
      ∀ v ∈ vs, hasVolume (vs.foldl addVolume pod) v.name = true := by
  induction vs generalizing pod with
  | nil => exact ⟨[], by simp, by simp, by simp⟩
  | cons v vs ih =>
    obtain ⟨added, hadded, heq, hhas⟩ := ih (addVolume pod v)
    rw [List.foldl_cons]
    have hkeeps : ∀ name, hasVolume (addVolume pod v) name = true →
        hasVolume (vs.foldl addVolume (addVolume pod v)) name = true := by
      intro name hname
      rw [heq]
      simp only [hasVolume, List.any_append, Bool.or_eq_true] at hname ⊢
      exact .inl hname
    have hself : hasVolume (addVolume pod v) v.name = true := by
      unfold addVolume
      split
      · assumption
      · simp [hasVolume]
    have hvs : ∀ w ∈ v :: vs,
        hasVolume (vs.foldl addVolume (addVolume pod v)) w.name = true :=
      List.forall_mem_cons.mpr ⟨hkeeps _ hself, hhas⟩
    rw [heq] at hvs ⊢
    unfold addVolume at hvs ⊢
    split at hvs
    · next hpresent =>
      rw [if_pos hpresent]
      exact ⟨added, fun w hw => List.mem_cons_of_mem _ (hadded w hw), rfl, hvs⟩
    · next habsent =>
      rw [if_neg habsent]
      refine ⟨v :: added, ?_, by simp, ?_⟩
      · exact List.forall_mem_cons.mpr
          ⟨List.mem_cons_self, fun w hw => List.mem_cons_of_mem _ (hadded w hw)⟩
      · simpa using hvs

/-- The Pod `mutate` leaves, with the volumes it has appended. -/
def mutated (i : PodInjector) (pod : Pod) (r : Resolved) (added : List Volume) : Pod :=
  { pod with
    volumes := pod.volumes ++ added
    initContainers := i.helpers r ++ pod.initContainers
    containers :=
      if r.mode = .runtimeSingleton then pod.containers.map (i.enforceContainer r)
      else pod.containers
    shareProcessNamespace :=
      if r.mode = .runtimeSingleton ∧ r.enforce = .signal then some true
      else pod.shareProcessNamespace
    annotations := pod.annotations.insert annInjected "true" }

theorem mutate_eq (i : PodInjector) (pod : Pod) (r : Resolved) :
    ∃ added, (∀ v ∈ added, v ∈ i.ownVolumes) ∧
      hasVolume (i.mutated pod r added) volumeName = true ∧
      i.mutate pod r = i.mutated pod r added := by
  obtain ⟨added, hadded, heq, hhas⟩ := foldl_addVolume i.ownVolumes pod
  have hfold : i.authVolumeMounts.1.foldl addVolume
      (addVolume pod { name := volumeName, emptyDir := some "" }) =
        { pod with volumes := pod.volumes ++ added } := heq
  have hstate := hhas _ List.mem_cons_self
  rw [heq] at hstate
  refine ⟨added, hadded, hstate, ?_⟩
  simp only [mutate, hfold, mutated]
  by_cases hmode : r.mode = .runtimeSingleton
  · simp [hmode, applyEnforcement]
  · simp [hmode]

theorem optedIn_mutate (i : PodInjector) (pod : Pod) (r : Resolved) :
    (i.mutate pod r).optedIn = pod.optedIn := by
  obtain ⟨added, -, -, heq⟩ := mutate_eq i pod r
  rw [heq]
  rfl

/-- Enforcement renames no container. -/
theorem mutated_container {added : List Volume} {c : Container}
    (h : c ∈ (i.mutated pod r added).containers) : ∃ d ∈ pod.containers, d.name = c.name := by
  simp only [mutated] at h
  split at h
  · obtain ⟨d, hd, rfl⟩ := List.mem_map.mp h
    exact ⟨d, hd, rfl⟩
  · exact ⟨c, h, rfl⟩

/-! ## Creation -/

/-- A main container of the author's after injection. A mount and a probe
are added in runtime mode only, and the probe where there was none. -/
structure KeptContainer (i : PodInjector) (r : Resolved) (c c' : Container) : Prop where
  mounts : ∃ ms added, c'.volumeMounts = ms ++ added ∧
    List.Forall₂ (VolumeMount.Repaired i.cfg.stateDir) c.volumeMounts ms ∧
    ∀ m ∈ added, r.mode = .runtimeSingleton ∧
      m = { name := volumeName, mountPath := i.cfg.stateDir, readOnly := true }
  probe : c'.livenessProbe = c.livenessProbe ∨
    r.mode = .runtimeSingleton ∧ c.livenessProbe = none ∧
      c'.livenessProbe = some (i.freshnessProbe r)
  rest : c' = { c with volumeMounts := c'.volumeMounts, livenessProbe := c'.livenessProbe }

theorem KeptContainer.writesState (h : i.KeptContainer r c c') :
    c'.writesState = false := by
  obtain ⟨ms, added, heq, hms, hadded⟩ := h.mounts
  refine Container.writesState_eq_false.mpr fun m hm => ?_
  rcases List.mem_append.mp (heq ▸ hm) with hm | hm
  · exact forall_mem_of_forall₂ hms (fun _ _ h => h.writesState) m hm
  · rw [(hadded m hm).2]
    rfl

theorem KeptContainer.of_repaired (h : Container.Repaired i.cfg.stateDir c c') :
    i.KeptContainer r c c' := by
  obtain ⟨ms, hms, rfl⟩ := h
  exact ⟨⟨ms, [], by simp, hms, List.forall_mem_nil _⟩, .inl rfl, rfl⟩

theorem KeptContainer.enforced (hmode : r.mode = .runtimeSingleton)
    (h : Container.Repaired i.cfg.stateDir c c') (hprobe : c.livenessProbe = none) :
    i.KeptContainer r c (i.enforceContainer r c') := by
  obtain ⟨ms, hms, rfl⟩ := h
  refine ⟨?_, .inr ⟨hmode, hprobe, rfl⟩, rfl⟩
  unfold enforceContainer
  split
  · exact ⟨ms, [], by simp, hms, List.forall_mem_nil _⟩
  · exact ⟨ms, _, rfl, hms, fun m hm => ⟨hmode, List.mem_singleton.mp hm⟩⟩

/-- What `Default` makes of a Pod on creation. `inits` are the author's init
containers behind the helpers. -/
structure Created (i : PodInjector) (r : Resolved) (pod pod' : Pod) (inits : List Container) :
    Prop where
  /-- The helpers stand in front; startup-gate has one, runtime-singleton two. -/
  initContainers : pod'.initContainers = i.helpers r ++ inits
  helpers : r.mode = .startupGate ∧ (i.helpers r).map (·.name) = [initContainerName] ∨
    r.mode = .runtimeSingleton ∧
      (i.helpers r).map (·.name) = [initContainerName, sidecarContainerName]
  /-- They write the state volume, and nobody else does. -/
  writers : ∀ c ∈ i.helpers r, c.writesState = true
  readers : ∀ c ∈ inits ++ pod'.containers ++ pod'.ephemeralContainers, c.writesState = false
  /-- No container of the author's goes by a helper's name. -/
  names : ∀ c ∈ inits ++ pod'.containers, c.name ∉ (i.helpers r).map (·.name)
  stateVolume : StateVolume pod'
  /-- The author's own part, in its order. -/
  keptInits : List.Forall₂ (Container.Repaired i.cfg.stateDir) pod.initContainers inits
  keptContainers : List.Forall₂ (i.KeptContainer r) pod.containers pod'.containers
  volumes : ∃ added, pod'.volumes = pod.volumes ++ added ∧ ∀ v ∈ added, v ∈ i.ownVolumes
  sharedPID : pod'.shareProcessNamespace = pod.shareProcessNamespace ∨
    r.mode = .runtimeSingleton ∧ r.enforce = .signal ∧ pod'.shareProcessNamespace = some true
  annotations : pod'.annotations = pod.annotations.insert annInjected "true"
  rest : pod' =
    { pod with
      initContainers := pod'.initContainers
      containers := pod'.containers
      volumes := pod'.volumes
      shareProcessNamespace := pod'.shareProcessNamespace
      annotations := pod'.annotations }

theorem helpers_of_mode (h : r.mode = .startupGate ∨ r.mode = .runtimeSingleton) :
    r.mode = .startupGate ∧ (i.helpers r).map (·.name) = [initContainerName] ∨
      r.mode = .runtimeSingleton ∧
        (i.helpers r).map (·.name) = [initContainerName, sidecarContainerName] := by
  rw [helpers_names, reserved]
  rcases h with h | h <;> simp [h]

/-- The author's containers through check and enforcement. -/
theorem keptContainers_of_check {cs : List Container}
    (hcs : List.Forall₂ (Container.Repaired i.cfg.stateDir) pod.containers cs)
    (hprobe : r.mode = .runtimeSingleton → ∀ c ∈ cs, c.livenessProbe = none) :
    List.Forall₂ (i.KeptContainer r) pod.containers
      (if r.mode = .runtimeSingleton then cs.map (i.enforceContainer r) else cs) := by
  split
  · next hmode =>
    rw [List.forall₂_map_right_iff]
    refine (forall₂_with_right hcs (hprobe hmode)).imp fun c c' h => ?_
    obtain ⟨hrep, hnone⟩ := h
    refine KeptContainer.enforced hmode hrep ?_
    obtain ⟨ms, -, rfl⟩ := hrep
    exact hnone
  · exact hcs.imp fun _ _ h => KeptContainer.of_repaired h

theorem created_of_parts {q : Pod} {ns : String}
    (hq : i.checkStateVolumeMounts pod false = .ok q) (hr : i.resolve q ns = .ok r)
    (hpre : i.preflight q r = none) :
    ∃ inits, i.Created r pod (i.mutate q r) inits := by
  obtain ⟨cs, is, hcs, his, heph, rfl⟩ := checkStateVolumeMounts_ok hq
  obtain ⟨hnames, hempty, hprobe⟩ := preflight_none hpre
  obtain ⟨added, hadded, hstate, heq⟩ :=
    mutate_eq i { pod with containers := cs, initContainers := is } r
  have hcs' := hcs.imp fun _ _ h => checkContainer_ok h
  have his' := his.imp fun _ _ h => checkContainer_ok h
  have hkept := keptContainers_of_check (r := r) hcs' hprobe
  rw [heq]
  refine ⟨is, ⟨rfl, helpers_of_mode (resolve_mode hr).2, fun c hc => helpers_writesState hc,
    ?_, ?_, ⟨hstate, ?_⟩, his', hkept, ⟨added, rfl, hadded⟩, ?_, rfl, rfl⟩⟩
  · -- repaired, kept, or refused on the way in
    intro c hc
    rw [List.append_assoc] at hc
    rcases List.mem_append.mp hc with hc | hc
    · exact forall_mem_of_forall₂ his' (fun _ _ h => h.writesState) c hc
    · rcases List.mem_append.mp hc with hc | hc
      · exact forall_mem_of_forall₂ hkept (fun _ _ h => h.writesState) c hc
      · simpa [owned] using heph c hc
  · intro c hc
    rw [helpers_names]
    rcases List.mem_append.mp hc with hc | hc
    · exact hnames c (List.mem_append_left _ hc)
    · obtain ⟨d, hd, hname⟩ := mutated_container hc
      exact hname ▸ hnames d (List.mem_append_right _ hd)
  · intro v hv hname
    rcases List.mem_append.mp hv with hv | hv
    · exact hempty v hv hname
    · exact ownVolumes_emptyDir (hadded v hv) hname
  · by_cases h : r.mode = .runtimeSingleton ∧ r.enforce = .signal
    · exact .inr ⟨h.1, h.2, if_pos h⟩
    · exact .inl (if_neg h)

/-- Whatever its author wrote, a Pod that `Default` lets through on creation
has the helpers as the only writers of its state volume. -/
theorem only_helpers_write (i : PodInjector) (req : Option Request) (pod pod' : Pod)
    (hns : i.isControlPlane (requestNamespace req pod) = false) (hopt : pod.optedIn = true)
    (hpath : onEphemeralPath req = false) (h : i.default req pod = .ok pod') :
    ∃ r inits, i.resolve pod (requestNamespace req pod) = .ok r ∧ i.Created r pod pod' inits := by
  obtain ⟨q, r, hq, hr, hpre, rfl⟩ := default_create hns hopt hpath h
  obtain ⟨inits, hcreated⟩ := created_of_parts hq hr hpre
  obtain ⟨cs, is, -, -, -, rfl⟩ := checkStateVolumeMounts_ok hq
  exact ⟨r, inits, hr, hcreated⟩

/-- A startup-gate Pod that carries a forged marker, has an init container
under the sidecar's name and mounts the state volume at its directory. -/
def forgedMarker (readOnly : Bool) : Pod :=
  { checkout .startupGate [⟨volumeName, "/berth", readOnly, "", "", ""⟩] with
    annotations := ((∅ : StringMap).insert annLeaseName "checkout").insert annMode
      Mode.startupGate.text |>.insert annInjected "true"
    initContainers := [{ name := sidecarContainerName }] }

theorem only_helpers_write_forged :
    ∃ r inits, chartInjector.resolve (forgedMarker false) "prod" = .ok r ∧
      chartInjector.Created r (forgedMarker false)
        (chartInjector.mutate (forgedMarker true) (checkoutResolved .startupGate)) inits :=
  only_helpers_write chartInjector (some ⟨"prod", ""⟩) _ _ (by decide)
    (by decide) (by decide) rfl

/-! ## Ephemeral containers -/

/-- `stored` is what creation made of the author's Pod. Other webhooks may
have changed a runtime-singleton Pod before `ValidateCreate` saw it; a
startup-gate Pod is the one `Default` left. -/
structure Admitted (i : PodInjector) (ns : String) (author stored : Pod) : Prop where
  optedIn : stored.optedIn = true
  injected : ∃ pod, i.default (some ⟨ns, ""⟩) author = .ok pod ∧
    (stored = pod ∨ i.mode stored = .runtimeSingleton)
  validated : i.mode stored = .runtimeSingleton →
    i.validateCreate (some ⟨ns, ""⟩) stored = none

/-- A request that names its namespace is judged by it. -/
theorem outside_of_request {ns : String} (hns : ns ≠ "") (hcp : i.isControlPlane ns = false)
    (sub : String) (pod : Pod) :
    i.isControlPlane (requestNamespace (some ⟨ns, sub⟩) pod) = false := by
  have hreq : requestNamespace (some ⟨ns, sub⟩) pod = ns := if_neg hns
  rw [hreq, hcp]

/-- Accepted init containers go by the helpers' names. -/
theorem onlyHelpers_names {cs : List Container} (h : onlyHelpers cs = true) :
    cs.map (·.name) = [initContainerName, sidecarContainerName] := by
  unfold onlyHelpers at h
  split at h
  · simp only [Bool.and_eq_true, beq_iff_eq] at h
    obtain ⟨⟨⟨ha, hb⟩, -⟩, -⟩ := h
    simp [ha, hb]
  · cases h

theorem Admitted.runtime_names {ns : String} {author stored : Pod}
    (h : i.Admitted ns author stored) (hns : ns ≠ "") (hcp : i.isControlPlane ns = false)
    (hmode : i.mode stored = .runtimeSingleton) :
    stored.initContainers.map (·.name) = [initContainerName, sidecarContainerName] := by
  obtain ⟨r, -, hinit, -, -⟩ := validateCreate_none (outside_of_request hns hcp "" stored)
    h.optedIn hmode (h.validated hmode)
  exact onlyHelpers_names hinit

/-- The init helper's name is taken in every admitted Pod. -/
theorem Admitted.init_name {ns : String} {author stored : Pod}
    (h : i.Admitted ns author stored) (hns : ns ≠ "") (hcp : i.isControlPlane ns = false) :
    initContainerName ∈ stored.initContainers.map (·.name) := by
  obtain ⟨pod, hpod, rfl | hmode⟩ := h.injected
  · by_cases hopt : author.optedIn = true
    · obtain ⟨q, r, -, -, -, rfl⟩ :=
        default_create (outside_of_request hns hcp "" author) hopt rfl hpod
      obtain ⟨added, -, -, heq⟩ := mutate_eq i q r
      rw [heq]
      exact List.mem_cons_self
    · -- without the label the Pod would have been stored as it came
      simp only [default, hopt, or_true, if_true, Except.ok.injEq] at hpod
      exact absurd (hpod ▸ h.optedIn) hopt
  · rw [h.runtime_names hns hcp hmode]
    exact List.mem_cons_self

/-- A name in use by the Pod's other containers is not an ephemeral one's. -/
theorem name_not_reused {xs es : List Container} {e : Container}
    (h : ((xs ++ es).map (·.name)).Nodup) (he : e ∈ es) : e.name ∉ xs.map (·.name) := by
  rw [List.map_append, List.nodup_append'] at h
  exact fun hx => h.2.2 hx (List.mem_map_of_mem he)

/-- Ephemeral containers attached to an admitted Pod cannot write its state
volume, exactly when the sidecar's name is the sidecar's or none that goes
by it mounts the volume writably. -/
theorem ephemeral_read_only_iff (i : PodInjector) (ns : String) (author stored updated : Pod)
    (es : List Container) (hns : ns ≠ "") (hcp : i.isControlPlane ns = false)
    (hadm : i.Admitted ns author stored)
    (hnames : ((stored.initContainers ++ stored.containers ++ es).map (·.name)).Nodup)
    (hupdate : i.default (some ⟨ns, subresourceEphemeralContainers⟩)
      { stored with ephemeralContainers := es } = .ok updated) :
    (∀ e ∈ es, e.writesState = false) ↔
      i.mode stored = .runtimeSingleton ∨
        ∀ e ∈ es, e.name = sidecarContainerName → e.writesState = false := by
  refine ⟨fun h => .inr fun e he _ => h e he, ?_⟩
  intro hfree e he
  have hout := outside_of_request hns hcp subresourceEphemeralContainers
    { stored with ephemeralContainers := es }
  rcases default_ephemeral hout hadm.optedIn rfl hupdate e he with howned | hok
  · have hunused : e.name ∉ stored.initContainers.map (·.name) := fun hmem =>
      name_not_reused hnames he (by rw [List.map_append]; exact List.mem_append_left _ hmem)
    simp only [isInjectorOwnedContainer, Bool.or_eq_true, beq_iff_eq] at howned
    rcases howned with hname | hname
    · exact absurd (hname ▸ hadm.init_name hns hcp) hunused
    rcases hfree with hmode | hfree
    · rw [hadm.runtime_names hns hcp hmode, hname] at hunused
      exact absurd (by simp) hunused
    · exact hfree e he hname
  · exact hok

/-- The Pod as it is stored after an injection of `checkout`. -/
theorem admitted_checkout (mode : Mode)
    (hdefault : chartInjector.default (some ⟨"prod", ""⟩) (checkout mode []) =
      .ok (checkoutInjected mode []))
    (hvalid : chartInjector.validateCreate (some ⟨"prod", ""⟩) (checkoutInjected mode []) = none) :
    chartInjector.Admitted "prod" (checkout mode []) (checkoutInjected mode []) :=
  ⟨(optedIn_mutate _ _ _).trans rfl, ⟨_, hdefault, .inl rfl⟩, fun _ => hvalid⟩

/-- A debugger that reads the state volume. -/
def debugger : Container :=
  { name := "debugger", volumeMounts := [⟨volumeName, "/ro", true, "", "", ""⟩] }

theorem ephemeral_read_only_debugger :
    chartInjector.Admitted "prod" (checkout .runtimeSingleton [])
        (checkoutInjected .runtimeSingleton []) ∧
      debugger.writesState = false := by
  have hadm := admitted_checkout .runtimeSingleton rfl (by decide)
  exact ⟨hadm, (ephemeral_read_only_iff chartInjector "prod" _ _ _ [debugger] (by decide)
    (by decide) hadm (by decide) rfl).mpr (.inl (by decide)) debugger
    List.mem_cons_self⟩

/-- In startup-gate mode an ephemeral container under the sidecar's name
mounts the state volume writably, and `Default` lets it through. -/
theorem ephemeral_claims_sidecar :
    chartInjector.Admitted "prod" (checkout .startupGate []) (checkoutInjected .startupGate []) ∧
      ∃ e : Container,
        (((checkoutInjected .startupGate []).initContainers ++
          (checkoutInjected .startupGate []).containers ++ [e]).map (·.name)).Nodup ∧
        chartInjector.default (some ⟨"prod", subresourceEphemeralContainers⟩)
            { checkoutInjected .startupGate [] with ephemeralContainers := [e] } =
          .ok { checkoutInjected .startupGate [] with ephemeralContainers := [e] } ∧
        e.writesState = true :=
  ⟨admitted_checkout _ rfl (by decide),
    { name := sidecarContainerName, volumeMounts := [⟨volumeName, "/rw", false, "", "", ""⟩] },
    by decide, rfl, by decide⟩

end PodInjector

end Berth.Webhook
