/-
Berth.Webhook.ValidateTheorems — what `Default` lets through on creation,
`ValidateCreate` accepts.

`ValidateCreate` derives everything again from the Pod it sees. Each of
its complaints is traced to an earlier check or to what `mutate` writes:
the resolved settings are the same, since the marker annotation is not
among those read (`resolve_mutated`); in runtime mode `preflight` has let
no init container through, so that the helpers are the only ones; and the
mounts `preflight` has accepted stay acceptable when the state mount is
added at the end (`validateProbeMounts_enforced`).
-/
import Berth.Webhook.InjectTheorems

namespace Berth.Webhook.PodInjector

open Berth.Acquire Berth.Checks Berth.Lease Berth.Webhook

variable {i : PodInjector} {req : Option Request} {pod pod' : Pod} {r : Resolved} {ns : String}

/-! ## Settings -/

/-- Settings are read from the annotations other than the marker, the
controller and the shared PID namespace. -/
theorem resolve_congr (hann : ∀ key, key ≠ annInjected → pod'.ann key = pod.ann key)
    (howner : controllerOwner pod' = controllerOwner pod)
    (hshare : pod'.shareProcessNamespace = some false → pod.shareProcessNamespace = some false)
    (h : i.resolve pod ns = .ok r) : i.resolve pod' ns = .ok r := by
  have hkeys : pod'.ann annTTLSeconds = pod.ann annTTLSeconds ∧
      pod'.ann annHeartbeatSeconds = pod.ann annHeartbeatSeconds ∧
      pod'.ann annEnforceGraceSeconds = pod.ann annEnforceGraceSeconds ∧
      pod'.ann annLeaseName = pod.ann annLeaseName ∧
      pod'.ann annLeaseNamespace = pod.ann annLeaseNamespace ∧
      i.mode pod' = i.mode pod ∧ pod'.ann annEnforce = pod.ann annEnforce ∧
      pod'.ann annSignalTarget = pod.ann annSignalTarget ∧
      pod'.ann annReleaseOnShutdown = pod.ann annReleaseOnShutdown ∧
      pod'.ann annHolderIdentity = pod.ann annHolderIdentity := by
    simp only [mode]
    refine ⟨?_, ?_, ?_, ?_, ?_, ?_, ?_, ?_, ?_, ?_⟩ <;> rw [hann _ (by decide)]
  obtain ⟨httl, hbeat, hgrace, hname, hlns, hmode, henf, hsig, hrel, hhold⟩ := hkeys
  simp only [resolve, bind_eq_ok, pure_eq_ok, pass_eq_ok, refuse_eq_none, intAnn, httl, hbeat, hgrace,
    hname, hlns, hmode, henf, hsig, hrel, hhold, howner] at h ⊢
  obtain ⟨ttl, h₁, beat, h₂, grace, h₃, u, h₄, u', h₅, rfl⟩ := h
  refine ⟨ttl, h₁, beat, h₂, grace, h₃, u, h₄, u', ?_, rfl⟩
  exact fun hbad => h₅ ⟨hbad.1, hbad.2.1, hshare hbad.2.2⟩

theorem ann_mutated {added : List Volume} {key : String} (h : key ≠ annInjected) :
    (i.mutated pod r added).ann key = pod.ann key := by
  simp only [Pod.ann, mutated, AList.lookup_insert_ne h]

/-- The Pod that comes out resolves to the same settings. -/
theorem resolve_mutated {added : List Volume} (h : i.resolve pod ns = .ok r) :
    i.resolve (i.mutated pod r added) ns = .ok r := by
  refine resolve_congr (fun key hkey => ann_mutated hkey) rfl (fun hshare => ?_) h
  simp only [mutated] at hshare
  split at hshare
  · cases hshare
  · exact hshare

/-! ## Mounts -/

theorem probeMountsLoop_of {container : String} {ms : List VolumeMount}
    (htrusted : ∀ m ∈ ms, i.atStateDir m = true → i.StateMount m)
    (hreadOnly : ∀ m ∈ ms, m.name = volumeName → m.readOnly = true) (found : Bool) :
    i.probeMountsLoop container found ms = .ok (found || ms.any i.atStateDir) := by
  induction ms generalizing found with
  | nil => simp [probeMountsLoop]
  | cons m ms ih =>
    obtain ⟨hm, hms⟩ := List.forall_mem_cons.mp htrusted
    obtain ⟨hro, hros⟩ := List.forall_mem_cons.mp hreadOnly
    rw [probeMountsLoop, if_neg, if_neg, ih hms hros, List.any_cons, Bool.or_assoc]
    · rintro ⟨hname, hw⟩
      rw [hro hname] at hw
      cases hw
    · rintro ⟨hat, hbad⟩
      have hok := hm hat
      simp [hok.mountPath, hok.name, hok.subPath, hok.subPathExpr, hok.readOnly] at hbad

theorem validateProbeMounts_of {c : Container}
    (htrusted : ∀ m ∈ c.volumeMounts, i.atStateDir m = true → i.StateMount m)
    (hreadOnly : ∀ m ∈ c.volumeMounts, m.name = volumeName → m.readOnly = true)
    (hfound : ∃ m ∈ c.volumeMounts, i.atStateDir m = true) :
    i.validateProbeMounts c true = none := by
  rw [validateProbeMounts, probeMountsLoop_of htrusted hreadOnly, List.any_eq_true.mpr hfound]
  rfl

theorem atStateDir_self {m : VolumeMount} (h : m.mountPath = i.cfg.stateDir) :
    i.atStateDir m = true := by
  simp [atStateDir, h]

/-- A container whose mounts `preflight` accepts has acceptable mounts, the
state mount among them, once it is under enforcement. -/
theorem validateProbeMounts_enforced {c : Container}
    (h : i.validateProbeMounts c false = none) :
    i.validateProbeMounts (i.enforceContainer r c) true = none := by
  obtain ⟨htrusted, hreadOnly, -⟩ := validateProbeMounts_none h
  by_cases hhas : containerHasMountAt c volumeName i.cfg.stateDir = true
  · have hmounts : (i.enforceContainer r c).volumeMounts = c.volumeMounts := if_pos hhas
    apply validateProbeMounts_of
    · rw [hmounts]
      exact htrusted
    · rw [hmounts]
      exact hreadOnly
    · obtain ⟨m, hm, hat⟩ := List.any_eq_true.mp hhas
      rw [Bool.and_eq_true, beq_iff_eq, beq_iff_eq] at hat
      rw [hmounts]
      exact ⟨m, hm, atStateDir_self hat.2⟩
  · have hmounts : (i.enforceContainer r c).volumeMounts = c.volumeMounts ++
        [{ name := volumeName, mountPath := i.cfg.stateDir, readOnly := true }] := if_neg hhas
    have hadded : i.StateMount
        { name := volumeName, mountPath := i.cfg.stateDir, readOnly := true } :=
      ⟨rfl, rfl, rfl, rfl, rfl⟩
    apply validateProbeMounts_of
    · rw [hmounts, List.forall_mem_append]
      exact ⟨htrusted, fun m hm _ => List.mem_singleton.mp hm ▸ hadded⟩
    · rw [hmounts, List.forall_mem_append]
      exact ⟨hreadOnly, fun m hm _ => List.mem_singleton.mp hm ▸ rfl⟩
    · rw [hmounts]
      exact ⟨_, List.mem_append_right _ List.mem_cons_self, atStateDir_self rfl⟩

/-! ## Creation -/

/-- What `preflight` has found of a runtime-singleton Pod. -/
theorem preflight_runtime (h : i.preflight pod r = none) (hmode : r.mode = .runtimeSingleton) :
    pod.initContainers = [] ∧
      ∀ c ∈ pod.containers, c.startupProbe = none ∧ i.validateProbeMounts c false = none := by
  simp only [preflight, Option.orElse_eq_none, if_pos hmode, List.findSome?_eq_none_iff] at h
  obtain ⟨-, hinit, -, -, -, hcs⟩ := h
  refine ⟨?_, fun c hc => ?_⟩
  · cases hlist : pod.initContainers with
    | nil => rfl
    | cons c cs => simp [hlist, hmode, refuse] at hinit
  · have hcheck := hcs c hc
    simp only [preflightContainer, Option.orElse_eq_none, refuse_eq_none, not_not] at hcheck
    exact ⟨hcheck.2.1, hcheck.2.2⟩

/-- A runtime-singleton Pod past `preflight` passes the final checks. -/
theorem validateRuntime_mutated {added : List Volume}
    (hadded : ∀ v ∈ added, v ∈ i.ownVolumes)
    (hstate : hasVolume (i.mutated pod r added) volumeName = true)
    (hpre : i.preflight pod r = none) (hmode : r.mode = .runtimeSingleton) :
    i.validateRuntime (i.mutated pod r added) r = none := by
  obtain ⟨hinit, hcs⟩ := preflight_runtime hpre hmode
  obtain ⟨-, hempty, -⟩ := preflight_none hpre
  simp only [validateRuntime, Option.orElse_eq_none, refuse_eq_none, List.findSome?_eq_none_iff]
  refine ⟨?_, fun v hv hbad => ?_, ?_, fun c hc => ?_⟩
  · simp [mutated, helpers, hmode, hinit, onlyHelpers, initHelper, sidecarHelper]
  · rcases List.mem_append.mp hv with hv | hv
    · exact hempty v hv hbad.1 hbad.2
    · exact ownVolumes_emptyDir (hadded v hv) hbad.1 hbad.2
  · rw [hstate]
    decide
  · have hcontainers : (i.mutated pod r added).containers =
        pod.containers.map (i.enforceContainer r) := if_pos hmode
    rw [hcontainers] at hc
    obtain ⟨d, hd, rfl⟩ := List.mem_map.mp hc
    obtain ⟨hstartup, hmounts⟩ := hcs d hd
    rw [validateContainer, Option.orElse_eq_none, refuse_eq_none]
    refine ⟨?_, validateProbeMounts_enforced hmounts⟩
    simp [enforceContainer, hstartup]

/-- A Pod that `Default` lets through on creation is accepted by
`ValidateCreate` under the same namespace. -/
theorem default_accepted (i : PodInjector) (req req' : Option Request) (pod pod' : Pod)
    (hpath : onEphemeralPath req = false) (h : i.default req pod = .ok pod')
    (hsame : requestNamespace req' pod' = requestNamespace req pod) :
    i.validateCreate req' pod' = none := by
  rw [validateCreate, hsame]
  by_cases hskip : i.isControlPlane (requestNamespace req pod) = true ∨ pod'.optedIn = false
  · exact if_pos hskip
  rw [if_neg hskip]
  simp only [not_or, Bool.not_eq_true, Bool.not_eq_false] at hskip
  obtain ⟨hns, hopt'⟩ := hskip
  by_cases hopt : pod.optedIn = true
  · obtain ⟨q, r, -, hr, hpre, rfl⟩ := default_create hns hopt hpath h
    obtain ⟨added, hadded, hstate, heq⟩ := mutate_eq i q r
    rw [heq, resolve_mutated hr]
    dsimp only
    split
    · rfl
    · next hmode => exact validateRuntime_mutated hadded hstate hpre (not_not.mp hmode)
  · -- without the label the Pod comes out as it went in
    simp only [default, hopt, or_true, if_true, Except.ok.injEq] at h
    exact absurd (h ▸ hopt') hopt

theorem default_accepted_checkout :
    chartInjector.validateCreate (some ⟨"prod", ""⟩)
      (checkoutInjected .runtimeSingleton [⟨volumeName, "/berth", true, "", "", ""⟩]) = none :=
  default_accepted chartInjector (some ⟨"prod", ""⟩) _
    (checkout .runtimeSingleton [⟨volumeName, "/berth", false, "", "", ""⟩]) _ rfl rfl
    (by decide)

end Berth.Webhook.PodInjector
