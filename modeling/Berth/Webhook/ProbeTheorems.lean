/-
Berth.Webhook.ProbeTheorems — the probe of an admitted runtime-singleton
Pod reads Berth's own files.

The kubelet runs `<StateDir>/check` and reads `<StateDir>/healthy` inside
the workload's container, so any mount at the state directory or below it
decides what the probe sees. `validateProbeMounts` compares cleaned texts;
`Path.Within` compares the places they name. On absolute mount paths the
texts miss nothing, so the probe is safe exactly when no relative path
leads there (`probe_unshadowed_iff`). Such a path, which the kubelet reads
against the root, passes the comparison unseen (`probe_shadowed_relative`).
-/
import Berth.Webhook.Inject

namespace Berth.Webhook

open Berth.Acquire Berth.Checks Berth.Lease

/-! ## What an accepted Pod has passed -/

/-- The Pod has the state volume, and it is an emptyDir. -/
structure StateVolume (pod : Pod) : Prop where
  present : hasVolume pod volumeName = true
  emptyDir : ∀ v ∈ pod.volumes, v.name = volumeName → v.emptyDir ≠ none

namespace PodInjector

variable {i : PodInjector}

/-- The whole state volume, read-only, at the state directory. -/
structure StateMount (i : PodInjector) (m : VolumeMount) : Prop where
  name : m.name = volumeName
  mountPath : m.mountPath = i.cfg.stateDir
  readOnly : m.readOnly = true
  subPath : m.subPath = ""
  subPathExpr : m.subPathExpr = ""

/-- What the loop has found out about the mounts it went over. -/
theorem probeMountsLoop_ok {container : String} {ms : List VolumeMount} {found found' : Bool}
    (h : i.probeMountsLoop container found ms = .ok found') :
    (∀ m ∈ ms, i.atStateDir m = true → i.StateMount m) ∧
      (∀ m ∈ ms, m.name = volumeName → m.readOnly = true) ∧
      found' = (found || ms.any i.atStateDir) := by
  induction ms generalizing found with
  | nil =>
    cases h
    simp
  | cons m ms ih =>
    rw [probeMountsLoop] at h
    split at h
    · cases h
    rename_i halters
    split at h
    · cases h
    rename_i hwrites
    obtain ⟨htrusted, hreadOnly, hfound⟩ := ih h
    have hm : i.atStateDir m = true → i.StateMount m := by
      intro hat
      have hsame := not_and.mp halters hat
      simp only [not_or, not_not, Bool.not_eq_false] at hsame
      obtain ⟨hpath, hname, hsub, hexpr, hro⟩ := hsame
      exact ⟨hname, hpath, hro, hsub, hexpr⟩
    have hro : m.name = volumeName → m.readOnly = true := by
      intro hname
      exact eq_true_of_ne_false fun hw => hwrites ⟨hname, hw⟩
    refine ⟨List.forall_mem_cons.mpr ⟨hm, htrusted⟩,
      List.forall_mem_cons.mpr ⟨hro, hreadOnly⟩, ?_⟩
    rw [hfound, List.any_cons, Bool.or_assoc]

theorem validateProbeMounts_none {c : Container} {required : Bool}
    (h : i.validateProbeMounts c required = none) :
    (∀ m ∈ c.volumeMounts, i.atStateDir m = true → i.StateMount m) ∧
      (∀ m ∈ c.volumeMounts, m.name = volumeName → m.readOnly = true) ∧
      (required = true → ∃ m ∈ c.volumeMounts, i.atStateDir m = true) := by
  unfold validateProbeMounts at h
  split at h
  · cases h
  rename_i found hloop
  obtain ⟨htrusted, hreadOnly, hfound⟩ := probeMountsLoop_ok hloop
  refine ⟨htrusted, hreadOnly, fun hreq => ?_⟩
  rw [refuse_eq_none, not_and, Bool.not_eq_false] at h
  rw [Bool.false_or] at hfound
  exact List.any_eq_true.mp (hfound ▸ h hreq)

/-- The mode of a resolved Pod is the one the Pod asks for, and a known
one. -/
theorem resolve_mode {pod : Pod} {ns : String} {r : Resolved} (h : i.resolve pod ns = .ok r) :
    r.mode = i.mode pod ∧ (r.mode = .startupGate ∨ r.mode = .runtimeSingleton) := by
  simp only [resolve, bind_eq_ok, pure_eq_ok, pass_eq_ok] at h
  obtain ⟨ttl, -, beat, -, grace, -, -, hvalid, -, -, rfl⟩ := h
  simp only [Resolved.validate, Option.orElse_eq_none, refuse_eq_none, not_not] at hvalid
  exact ⟨rfl, by simpa using hvalid.2.1⟩

/-- Acceptance of a runtime-singleton Pod, check by check. -/
theorem validateCreate_none {req : Option Request} {pod : Pod}
    (hns : i.isControlPlane (requestNamespace req pod) = false) (hopt : pod.optedIn = true)
    (hmode : i.mode pod = .runtimeSingleton) (h : i.validateCreate req pod = none) :
    ∃ r, i.resolve pod (requestNamespace req pod) = .ok r ∧
      onlyHelpers pod.initContainers = true ∧ StateVolume pod ∧
      ∀ c ∈ pod.containers, i.validateContainer r c = none := by
  simp only [validateCreate, hns, hopt] at h
  cases hr : i.resolve pod (requestNamespace req pod) with
  | error e => simp [hr] at h
  | ok r =>
    have hrun : r.mode = .runtimeSingleton := (resolve_mode hr).1.trans hmode
    simp only [hr, hrun, validateRuntime, Option.orElse_eq_none, refuse_eq_none,
      List.findSome?_eq_none_iff, ne_eq, not_true_eq_false, reduceCtorEq, or_self, if_false,
      Bool.not_eq_false] at h
    obtain ⟨hinit, hempty, hvol, hcs⟩ := h
    exact ⟨r, rfl, hinit, ⟨hvol, fun v hv hname hnone => hempty v hv ⟨hname, hnone⟩⟩, hcs⟩

/-! ## The probe's files -/

/-- What the probe needs of a container: whatever is mounted where it reads
is the state volume, which is there, and which the container cannot
write. -/
structure ProbeGuarded (i : PodInjector) (c : Container) : Prop where
  trusted : ∀ m ∈ c.volumeMounts, Path.Within i.cfg.stateDir m.mountPath → i.StateMount m
  mounted : ∃ m ∈ c.volumeMounts, Path.Within i.cfg.stateDir m.mountPath
  readOnly : ∀ m ∈ c.volumeMounts, m.name = volumeName → m.readOnly = true

/-- The test on texts sees every absolute mount path within the state
directory. -/
theorem atStateDir_of_within {m : VolumeMount} (hroot : Path.isAbs i.cfg.stateDir = true)
    (hpath : Path.isAbs m.mountPath = true) (h : Path.Within i.cfg.stateDir m.mountPath) :
    i.atStateDir m = true := by
  simpa [atStateDir] using Path.within_clean hroot hpath h

/-- In every container of an accepted runtime-singleton Pod the probe reads
the state volume and nothing else, exactly when every mount path that leads
to the state directory or below it is absolute. -/
theorem probe_unshadowed_iff (i : PodInjector) (req : Option Request) (pod : Pod)
    (hcfg : i.cfg.validate = none)
    (hns : i.isControlPlane (requestNamespace req pod) = false) (hopt : pod.optedIn = true)
    (hmode : i.mode pod = .runtimeSingleton) (haccept : i.validateCreate req pod = none) :
    (StateVolume pod ∧ ∀ c ∈ pod.containers, i.ProbeGuarded c) ↔
      ∀ c ∈ pod.containers, ∀ m ∈ c.volumeMounts, Path.Within i.cfg.stateDir m.mountPath →
        Path.isAbs m.mountPath = true := by
  have hroot := InjectorConfig.isAbs_of_validate hcfg
  constructor
  · rintro ⟨-, hguarded⟩ c hc m hm hwithin
    rw [((hguarded c hc).trusted m hm hwithin).mountPath]
    exact hroot
  · intro habs
    obtain ⟨r, -, -, hvol, hcs⟩ := validateCreate_none hns hopt hmode haccept
    refine ⟨hvol, fun c hc => ?_⟩
    have hcheck := hcs c hc
    rw [validateContainer, Option.orElse_eq_none] at hcheck
    obtain ⟨htrusted, hreadOnly, hfound⟩ := validateProbeMounts_none hcheck.2
    refine ⟨fun m hm hwithin => ?_, ?_, hreadOnly⟩
    · exact htrusted m hm (atStateDir_of_within hroot (habs c hc m hm hwithin) hwithin)
    · obtain ⟨m, hm, hat⟩ := hfound rfl
      refine ⟨m, hm, ?_⟩
      rw [(htrusted m hm hat).mountPath]
      exact Path.Within.refl _

/-! ## Runs of the webhook on one Pod -/

/-- A webhook with the defaults of the chart. -/
def chartInjector : PodInjector :=
  newPodInjector { helperImage := "berth-acquire:1", defaultTTLSeconds := 30 }

/-- An opted-in Pod with one container, a volume of its own and the mounts
given. -/
def checkout (mode : Mode) (ms : List VolumeMount) : Pod :=
  { ns := "prod"
    labels := (∅ : StringMap).insert labelInject injectValueAcquire
    annotations :=
      ((∅ : StringMap).insert annLeaseName "checkout").insert annMode mode.text
    containers := [{ name := "app", image := "vendor/app:1", volumeMounts := ms }]
    volumes := [{ name := "data", emptyDir := some "" }] }

/-- The configuration resolved for it. -/
def checkoutResolved (mode : Mode) : Resolved :=
  { leaseName := "checkout"
    leaseNamespace := "prod"
    mode := mode
    enforce := .probe
    signalTarget := ""
    ttlSeconds := 30
    heartbeatSeconds := 0
    enforceGrace := 0
    releaseOnDown := ""
    holderIdentity := ""
    workloadKind := ""
    workloadName := "" }

/-- The Pod as `Default` leaves it. -/
def checkoutInjected (mode : Mode) (ms : List VolumeMount) : Pod :=
  chartInjector.mutate (checkout mode ms) (checkoutResolved mode)

theorem probe_unshadowed_checkout :
    StateVolume (checkoutInjected .runtimeSingleton [⟨"data", "data/", false, "", "", ""⟩]) ∧
      ∀ c ∈ (checkoutInjected .runtimeSingleton [⟨"data", "data/", false, "", "", ""⟩]).containers,
        chartInjector.ProbeGuarded c :=
  (probe_unshadowed_iff chartInjector (some ⟨"prod", ""⟩) _ (by decide) (by decide)
    (by decide) (by decide) (by decide)).mpr (by decide)

/-- A volume of the author's mounted at the relative path `berth`: both
webhooks let the Pod through, and in its container the volume lies at the
state directory. -/
theorem probe_shadowed_relative :
    chartInjector.cfg.validate = none ∧
      chartInjector.default (some ⟨"prod", ""⟩)
          (checkout .runtimeSingleton [⟨"data", "berth", false, "", "", ""⟩]) =
        .ok (checkoutInjected .runtimeSingleton [⟨"data", "berth", false, "", "", ""⟩]) ∧
      chartInjector.validateCreate (some ⟨"prod", ""⟩)
        (checkoutInjected .runtimeSingleton [⟨"data", "berth", false, "", "", ""⟩]) = none ∧
      ∃ c ∈ (checkoutInjected .runtimeSingleton
          [⟨"data", "berth", false, "", "", ""⟩]).containers,
        ∃ m ∈ c.volumeMounts, Path.Within chartInjector.cfg.stateDir m.mountPath ∧
          m.name = "data" := by
  refine ⟨by decide, ?_, by decide, by decide⟩
  rfl

end PodInjector

end Berth.Webhook
