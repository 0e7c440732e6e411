/-
Berth.Webhook.EnvTheorems — the environment between the webhook and the
helper: what is admitted is what the helper runs with.

`buildEnv` writes the resolved settings as texts, `configFromEnv` reads
them back, and both sides check them on their own. `environment` is what
the container's process sees: a value as it was written, a field reference
filled in from the Pod. Values with `$(...)` references, which the kubelet
expands, are not in question here.

`helperConfig` says what a Pod is meant to run with. The helper ends up
with exactly that unless the enforcement grace overflows when it is turned
into nanoseconds (`helper_accepts_iff`): the webhook has no upper limit on
it (`grace_overflows`).
-/
import Berth.Acquire.ConfigTheorems
import Berth.Webhook.InjectTheorems

namespace Berth.Webhook

open Berth.Acquire Berth.Checks Berth.GoTime Berth.Lease

/-! ## Environments -/

/-- What the downward API fills in. -/
structure PodFields where
  ns : String
  name : String
  uid : String
  deriving DecidableEq, Repr

def PodFields.value (f : PodFields) (path : String) : String :=
  if path = "metadata.namespace" then f.ns
  else if path = "metadata.name" then f.name
  else if path = "metadata.uid" then f.uid
  else ""

def EnvVar.filled (v : EnvVar) (f : PodFields) : String :=
  match v.fieldRef with
  | some path => f.value path
  | none => v.value

/-- The variable as the container's process sees it. -/
def lookup (env : List EnvVar) (f : PodFields) (name : String) : Option String :=
  (env.find? (·.name == name)).map (·.filled f)

/-- `os.Getenv` in a container with these variables. -/
def environment (env : List EnvVar) (f : PodFields) (name : String) : String :=
  (lookup env f name).getD ""

section Lookup

variable {env : List EnvVar} {f : PodFields} {cond : Bool} {name value key : String}

/-- A conditional variable is invisible to lookups of the others. -/
theorem lookup_appendIf_ne (h : name ≠ key) :
    lookup (appendIf env cond name value) f key = lookup env f key := by
  unfold appendIf lookup
  split
  · rw [List.find?_append, List.find?_singleton, if_neg (by simpa using h), Option.or_none]
  · rfl

theorem lookup_appendIf_self :
    lookup (appendIf env cond name value) f name =
      (lookup env f name).or (if cond = true then some value else none) := by
  unfold appendIf lookup
  split
  · cases henv : env.find? (·.name == name) with
    | none => simp [henv, EnvVar.filled]
    | some v => simp [henv]
  · rw [Option.or_none]

/-- A variable that is only set when it is not empty. -/
theorem getD_unless_empty :
    ((none : Option String).or (if (value != "") = true then some value else none)).getD "" =
      value := by
  by_cases h : value = ""
  · simp [h]
  · simp [h]

end Lookup

/-! ## What the helper is meant to run with -/

/-- The helper's configuration for a Pod with these settings. -/
def PodInjector.helperConfig (i : PodInjector) (r : Resolved) (f : PodFields) : Config :=
  { leaseName := r.leaseName
    leaseNamespace := r.leaseNamespace
    mode := r.mode
    enforce := r.enforce
    signalTarget := if r.enforce = .signal then r.signalTarget else ""
    ttl := r.ttlSeconds * second
    heartbeatInterval :=
      if r.heartbeatSeconds = 0 then (r.ttlSeconds * second).tdiv 3 else r.heartbeatSeconds * second
    enforceGrace := r.enforceGrace * second
    releaseOnShutdown :=
      some (if r.releaseOnDown = "" then r.mode == .runtimeSingleton else r.releaseOnDown == "true")
    holderIdentity := r.holderIdentity
    workloadKind := r.workloadKind
    workloadName := r.workloadName
    clusterID := i.cfg.clusterID
    podNamespace := f.ns
    podName := f.name
    podUID := f.uid
    stateDir := i.cfg.stateDir
    apiServer := i.cfg.apiServer
    apiKey := ""
    apiKeyFile := i.cfg.apiKeyFile
    caBundleFile := i.cfg.caBundleFile
    serverName := i.cfg.serverName
    insecureSkipVerify := i.cfg.insecureSkipVerify }

/-- A UID as Kubernetes assigns them: not empty, no separator, no space. -/
structure PodFields.WellFormed (f : PodFields) : Prop where
  uid : f.uid ≠ ""
  plain : ∀ ch ∈ f.uid.toList, ch ≠ ':' ∧ ch ≠ '/' ∧ isSpace ch = false

theorem PodFields.WellFormed.containsAny {f : PodFields} (h : f.WellFormed) :
    Acquire.containsAny f.uid ":/ \t\r\n" = false := by
  rw [Acquire.containsAny, List.any_eq_false]
  intro ch hch
  obtain ⟨hcolon, hslash, hspace⟩ := h.plain ch hch
  rw [List.contains_iff_mem]
  intro hmem
  have hcases : ch = ':' ∨ ch = '/' ∨ ch = ' ' ∨ ch = '\t' ∨ ch = '\r' ∨ ch = '\n' := by
    simpa using hmem
  rcases hcases with rfl | rfl | rfl | rfl | rfl | rfl
  · exact hcolon rfl
  · exact hslash rfl
  all_goals exact absurd hspace (by decide)

theorem dropWhile_none {p : Char → Bool} {cs : List Char} (h : ∀ ch ∈ cs, p ch = false) :
    cs.dropWhile p = cs := by
  cases cs with
  | nil => rfl
  | cons c cs => rw [List.dropWhile_cons, h c List.mem_cons_self, if_neg Bool.false_ne_true]

theorem PodFields.WellFormed.trimSpace {f : PodFields} (h : f.WellFormed) :
    Acquire.trimSpace f.uid = f.uid := by
  have hspace : ∀ ch ∈ f.uid.toList, isSpace ch = false := fun ch hch => (h.plain ch hch).2.2
  rw [Acquire.trimSpace, dropWhile_none hspace,
    dropWhile_none fun ch hch => hspace ch (List.mem_reverse.mp hch), List.reverse_reverse,
    String.ofList_toList]

/-! ## Reading the environment back -/

theorem ofText_mode {m : Mode} (h : m = .startupGate ∨ m = .runtimeSingleton) :
    Mode.ofText m.text = m := by
  rcases h with rfl | rfl <;> rfl

theorem ofText_enforce {e : Enforce} (h : e = .probe ∨ e = .signal) :
    Enforce.ofText e.text = e := by
  rcases h with rfl | rfl <;> rfl

/-- What `Resolved.validate` has found. -/
structure Resolved.Checked (r : Resolved) : Prop where
  leaseName : r.leaseName ≠ ""
  mode : r.mode = .startupGate ∨ r.mode = .runtimeSingleton
  enforce : r.enforce = .probe ∨ r.enforce = .signal
  target : r.mode = .runtimeSingleton → r.enforce = .signal → r.signalTarget ≠ ""
  ttl_pos : 0 < r.ttlSeconds
  ttl_max : r.ttlSeconds ≤ maxInt32
  beat_nonneg : 0 ≤ r.heartbeatSeconds
  beat_lt : 0 < r.heartbeatSeconds → r.heartbeatSeconds < r.ttlSeconds
  grace : 0 ≤ r.enforceGrace
  release : r.releaseOnDown = "" ∨ r.releaseOnDown = "true" ∨ r.releaseOnDown = "false"

theorem Resolved.validate_none {r : Resolved} (h : r.validate = none) : r.Checked := by
  simp only [Resolved.validate, Option.orElse_eq_none, refuse_eq_none, not_not, not_or, not_and,
    Int.not_le, Int.not_lt] at h
  obtain ⟨hname, hmode, henf, htarget, ⟨hpos, hmax⟩, hbeat, hlt, hgrace, hrel⟩ := h
  exact ⟨hname, by simpa using hmode, by simpa using henf, htarget, hpos, hmax, hbeat, hlt, hgrace,
    by simpa using hrel⟩

namespace PodInjector

variable {i : PodInjector} {r : Resolved} {f : PodFields} {pod : Pod} {ns : String}

/-- Every variable the helper reads, as `buildEnv` has written it. -/
structure Written (i : PodInjector) (r : Resolved) (f : PodFields) (get : String → String) : Prop where
  leaseName : get envLeaseName = r.leaseName
  leaseNamespace : get envLeaseNamespace = r.leaseNamespace
  mode : get envMode = r.mode.text
  enforce : get envEnforce = r.enforce.text
  ttl : get envTTLSeconds = formatInt r.ttlSeconds
  stateDir : get envStateDir = i.cfg.stateDir
  podNamespace : get envPodNamespace = f.ns
  podName : get envPodName = f.name
  podUID : get envPodUID = f.uid
  signalTarget : get envSignalTarget = if r.enforce = .signal then r.signalTarget else ""
  heartbeat : get envHeartbeatSecs =
    if 0 < r.heartbeatSeconds then formatInt r.heartbeatSeconds else ""
  grace : get envEnforceGrace = if 0 < r.enforceGrace then formatInt r.enforceGrace else ""
  release : get envReleaseOnDown = r.releaseOnDown
  holderIdentity : get envHolderIdentity = r.holderIdentity
  workloadKind : get envWorkloadKind = r.workloadKind
  workloadName : get envWorkloadName = r.workloadName
  clusterID : get envClusterID = i.cfg.clusterID
  apiServer : get envAPIServer = i.cfg.apiServer
  apiKey : get envAPIKey = ""
  apiKeyFile : get envAPIKeyFile = i.cfg.apiKeyFile
  caBundleFile : get envCABundleFile = i.cfg.caBundleFile
  serverName : get envServerName = i.cfg.serverName
  insecure : get envInsecure = if i.cfg.insecureSkipVerify = true then "true" else ""

theorem written_buildEnv : Written i r f (environment (i.buildEnv r) f) := by
  constructor
  all_goals
    simp (disch := decide) only [environment, buildEnv, lookup_appendIf_ne, lookup_appendIf_self]
  case signalTarget =>
    show ((none : Option String).or _).getD "" = _
    by_cases he : r.enforce = .signal <;> by_cases ht : r.signalTarget = "" <;> simp [he, ht]
  case heartbeat =>
    show ((none : Option String).or _).getD "" = _
    by_cases h : 0 < r.heartbeatSeconds <;> simp [h]
  case grace =>
    show ((none : Option String).or _).getD "" = _
    by_cases h : 0 < r.enforceGrace <;> simp [h]
  case insecure =>
    show ((none : Option String).or _).getD "" = _
    cases i.cfg.insecureSkipVerify <;> rfl
  case release => exact getD_unless_empty
  case holderIdentity => exact getD_unless_empty
  case workloadKind => exact getD_unless_empty
  case workloadName => exact getD_unless_empty
  case clusterID => exact getD_unless_empty
  case apiServer => exact getD_unless_empty
  case apiKeyFile => exact getD_unless_empty
  case caBundleFile => exact getD_unless_empty
  case serverName => exact getD_unless_empty
  -- the variables that are always there
  all_goals rfl

/-- A number of seconds the webhook writes only when it is positive. -/
theorem secondsEnv_written {get : String → String} {key : String} {n : Int}
    (h : get key = if 0 < n then formatInt n else "") (h₀ : 0 ≤ n) (hfit : Fits n) :
    secondsEnv get key = .ok (n * second) := by
  by_cases hn : 0 < n
  · rw [if_pos hn] at h
    have hatoi : atoi (get key) = some n := by
      have hle : n ≤ n * second := by
        unfold second
        omega
      rw [h, atoi, parseInt_formatInt h₀ (Int.le_trans hle hfit.2)]
    rw [secondsEnv_of_atoi hatoi, toInt64_of_range hfit.1 hfit.2]
  · have hzero : n = 0 := Int.le_antisymm (Int.not_lt.mp hn) h₀
    rw [if_neg hn] at h
    rw [secondsEnv, if_pos h, hzero, Int.zero_mul]

/-- What `configFromEnv` returns: the defaults are still missing. -/
def readConfig (i : PodInjector) (r : Resolved) (f : PodFields) : Config :=
  { i.helperConfig r f with
    heartbeatInterval := r.heartbeatSeconds * second
    releaseOnShutdown :=
      if r.releaseOnDown = "" then none else some (r.releaseOnDown == "true") }

theorem configFromEnv_written {get : String → String} (h : Written i r f get) (hr : r.Checked)
    (hgrace : r.enforceGrace ≤ 9223372036) : configFromEnv get = .ok (i.readConfig r f) := by
  have hmax := hr.ttl_max
  unfold maxInt32 at hmax
  have httl : secondsEnv get envTTLSeconds = .ok (r.ttlSeconds * second) := by
    refine secondsEnv_written ?_ (Int.le_of_lt hr.ttl_pos) (fits_of_le (Int.le_of_lt hr.ttl_pos) ?_)
    · rw [h.ttl, if_pos hr.ttl_pos]
    · omega
  have hbeat : secondsEnv get envHeartbeatSecs = .ok (r.heartbeatSeconds * second) := by
    refine secondsEnv_written h.heartbeat hr.beat_nonneg (fits_of_le hr.beat_nonneg ?_)
    have := hr.beat_lt
    omega
  have hgr : secondsEnv get envEnforceGrace = .ok (r.enforceGrace * second) :=
    secondsEnv_written h.grace hr.grace (fits_of_le hr.grace hgrace)
  have hrel : boolEnv get envReleaseOnDown =
      .ok (if r.releaseOnDown = "" then none else some (r.releaseOnDown == "true")) := by
    rw [boolEnv, h.release]
    rcases hr.release with h' | h' | h' <;> rw [h'] <;> rfl
  have hins : boolEnv get envInsecure =
      .ok (if i.cfg.insecureSkipVerify = true then some true else none) := by
    rw [boolEnv, h.insecure]
    cases i.cfg.insecureSkipVerify <;> rfl
  have hinsD : (if i.cfg.insecureSkipVerify = true then some true else none).getD false =
      i.cfg.insecureSkipVerify := by
    cases i.cfg.insecureSkipVerify <;> rfl
  simp only [configFromEnv, httl, hbeat, hgr, hrel, hins, bind_eq_ok, pure_eq_ok, Except.ok.injEq,
    exists_eq_left', h.leaseName, h.leaseNamespace, h.mode, h.enforce, h.stateDir, h.podNamespace,
    h.podName, h.podUID, h.signalTarget, h.holderIdentity, h.workloadKind, h.workloadName,
    h.clusterID, h.apiServer, h.apiKey, h.apiKeyFile, h.caBundleFile, h.serverName,
    ofText_mode hr.mode, ofText_enforce hr.enforce, hinsD]
  rfl

/-- The defaults complete what was read to what is meant. -/
theorem applyDefaults_readConfig (hr : r.Checked) (hdir : i.cfg.stateDir ≠ "")
    (hns : r.leaseNamespace ≠ "") : (i.readConfig r f).applyDefaults = i.helperConfig r f := by
  have hmode : r.mode ≠ .other "" := by
    rcases hr.mode with h | h <;> rw [h] <;> decide
  have henf : r.enforce ≠ .other "" := by
    rcases hr.enforce with h | h <;> rw [h] <;> decide
  have hbeat : (if r.heartbeatSeconds * second ≤ 0 ∧ 0 < r.ttlSeconds * second then
        (r.ttlSeconds * second).tdiv 3 else r.heartbeatSeconds * second) =
      if r.heartbeatSeconds = 0 then (r.ttlSeconds * second).tdiv 3
      else r.heartbeatSeconds * second := by
    have h₀ := hr.beat_nonneg
    have hpos := hr.ttl_pos
    unfold second
    refine if_congr ?_ rfl rfl
    omega
  have hrel : (if r.releaseOnDown = "" then none else some (r.releaseOnDown == "true")).getD
        (r.mode == .runtimeSingleton) =
      if r.releaseOnDown = "" then r.mode == .runtimeSingleton else r.releaseOnDown == "true" := by
    split <;> rfl
  rw [Config.applyDefaults_of_set hmode henf hdir hns]
  show ({ i.helperConfig r f with
      heartbeatInterval := if r.heartbeatSeconds * second ≤ 0 ∧ 0 < r.ttlSeconds * second then
        (r.ttlSeconds * second).tdiv 3 else r.heartbeatSeconds * second
      releaseOnShutdown := some ((if r.releaseOnDown = "" then none
        else some (r.releaseOnDown == "true")).getD (r.mode == .runtimeSingleton)) } : Config) = _
  rw [hbeat, hrel]
  rfl

theorem tdiv_ttl (hr : r.Checked) :
    (r.ttlSeconds * second).tdiv 3 = r.ttlSeconds * second / 3 :=
  Int.tdiv_eq_ediv_of_nonneg (Int.mul_nonneg (Int.le_of_lt hr.ttl_pos) (Int.le_of_lt second_pos))

/-- The helper accepts what is meant. -/
theorem checked_helperConfig (hr : r.Checked) (hns : r.leaseNamespace ≠ "")
    (hapi : i.cfg.apiServer ≠ "") (hf : f.WellFormed)
    (hsize : r.mode = .runtimeSingleton → r.holderIdentity = "" →
      (i.helperConfig r f).holder.utf8ByteSize ≤ 253) : (i.helperConfig r f).Checked where
  leaseName := hr.leaseName
  leaseNamespace := hns
  mode := hr.mode
  enforce := hr.enforce
  target := by
    intro hmode henf
    have henf' : r.enforce = .signal := henf
    show (if r.enforce = .signal then r.signalTarget else "") ≠ ""
    rw [if_pos henf']
    exact hr.target hmode henf'
  holder := fun hmode hid => ⟨hf.uid, hf.containsAny, hf.trimSpace, hsize hmode hid⟩
  ttl_pos := Int.mul_pos hr.ttl_pos second_pos
  ttl_max := Int.mul_le_mul_of_nonneg_right hr.ttl_max (Int.le_of_lt second_pos)
  beat_pos := by
    have h₀ := hr.beat_nonneg
    have hpos := hr.ttl_pos
    show 0 < if r.heartbeatSeconds = 0 then (r.ttlSeconds * second).tdiv 3
      else r.heartbeatSeconds * second
    rw [tdiv_ttl hr]
    unfold second
    split <;> omega
  beat_lt := by
    have h₀ := hr.beat_nonneg
    have hpos := hr.ttl_pos
    have hlt := hr.beat_lt
    show (if r.heartbeatSeconds = 0 then (r.ttlSeconds * second).tdiv 3
      else r.heartbeatSeconds * second) < r.ttlSeconds * second
    rw [tdiv_ttl hr]
    unfold second
    split <;> omega
  grace := Int.mul_nonneg hr.grace (Int.le_of_lt second_pos)
  apiServer := hapi
  apiKey := .inl rfl

/-- What `resolve` has found of the settings it returns. -/
theorem resolve_checked (h : i.resolve pod ns = .ok r) (hns : ns ≠ "") :
    r.Checked ∧ r.leaseNamespace ≠ "" := by
  simp only [resolve, bind_eq_ok, pure_eq_ok, pass_eq_ok] at h
  obtain ⟨ttl, -, beat, -, grace, -, u, hval, u', -, rfl⟩ := h
  refine ⟨Resolved.validate_none hval, ?_⟩
  show orDefault (pod.ann annLeaseNamespace) ns ≠ ""
  unfold orDefault
  split
  · exact hns
  · assumption

/-- The probe's bound is the text of the TTL. -/
theorem secondsString_eq {n : Int} (h : 0 < n) : secondsString n = durationString (n * second) := by
  have hfrac : fmtFrac (n.natAbs * 1000000000) 9 false [] = ([], n.natAbs) :=
    fmtFrac_zeros 9 n.natAbs
  rw [durationString_seconds h]
  simp [secondsString, fmtSeconds, hfrac, Int.not_lt.mpr (Int.le_of_lt h)]

/-- The helper of an admitted Pod accepts its environment and runs with
what the Pod's annotations say, and the bound of the injected probes is its
TTL, exactly when the enforcement grace is at most 9223372036 seconds. -/
theorem helper_accepts_iff (i : PodInjector) (pod : Pod) (ns : String) (r : Resolved) (f : PodFields)
    (hcfg : i.cfg.validate = none) (hapi : i.cfg.apiServer ≠ "") (hns : ns ≠ "")
    (hr : i.resolve pod ns = .ok r) (hf : f.WellFormed)
    (hsize : r.mode = .runtimeSingleton → r.holderIdentity = "" →
      (i.helperConfig r f).holder.utf8ByteSize ≤ 253) :
    (∃ c, configFromEnv (environment (i.buildEnv r) f) = .ok c ∧ c.validate = none ∧
      c.applyDefaults = i.helperConfig r f ∧
      (r.mode = .runtimeSingleton → ∀ d ∈ (i.mutate pod r).containers, ∃ maxAge,
        (d.livenessProbe.bind (·.exec)) = some [i.cfg.stateDir ++ "/check", "check",
          i.cfg.stateDir ++ "/healthy", "--max-age", maxAge] ∧
        parseDuration maxAge = some c.applyDefaults.ttl)) ↔ r.enforceGrace ≤ 9223372036 := by
  constructor
  · rintro ⟨c, hread, -, hconfig, -⟩
    -- the grace that was read is an `int64` of nanoseconds
    have hgrace : c.enforceGrace = r.enforceGrace * second := congrArg Config.enforceGrace hconfig
    have hle : r.enforceGrace * second ≤ maxInt64 :=
      hgrace ▸ secondsEnv_le (configFromEnv_durations hread).2.2
    unfold second maxInt64 at hle
    omega
  · intro hgrace
    obtain ⟨hchecked, hlns⟩ := resolve_checked hr hns
    have hdir : i.cfg.stateDir ≠ "" := by
      intro h
      have habs := InjectorConfig.isAbs_of_validate hcfg
      rw [h] at habs
      exact absurd habs (by decide)
    have hdefaults := applyDefaults_readConfig (f := f) hchecked hdir hlns
    refine ⟨i.readConfig r f, configFromEnv_written written_buildEnv hchecked hgrace, ?_, hdefaults,
      ?_⟩
    · rw [Config.validate, hdefaults, Config.check_none]
      exact checked_helperConfig hchecked hlns hapi hf hsize
    · intro hmode d hd
      obtain ⟨added, -, -, heq⟩ := mutate_eq i pod r
      have hcs : (i.mutate pod r).containers = pod.containers.map (i.enforceContainer r) := by
        rw [heq]
        exact if_pos hmode
      rw [hcs] at hd
      obtain ⟨e, -, rfl⟩ := List.mem_map.mp hd
      refine ⟨secondsString r.ttlSeconds, rfl, ?_⟩
      have hmax := hchecked.ttl_max
      unfold maxInt32 at hmax
      have hlt : r.ttlSeconds * second < 2 ^ 63 := by
        unfold second
        omega
      rw [hdefaults, secondsString_eq hchecked.ttl_pos, parseDuration_seconds hchecked.ttl_pos hlt]
      rfl

/-- An injector that knows its API server. -/
def servedInjector : PodInjector :=
  newPodInjector
    { helperImage := "berth-acquire:1", defaultTTLSeconds := 30, apiServer := "https://berth" }

/-- An opted-in Pod that asks for this much grace before it is killed. -/
def graceful (seconds : String) : Pod :=
  { ns := "prod"
    labels := (∅ : StringMap).insert labelInject injectValueAcquire
    annotations :=
      ((∅ : StringMap).insert annLeaseName "checkout").insert annEnforceGraceSeconds seconds
    containers := [{ name := "app", image := "vendor/app:1" }] }

/-- What is resolved for it. -/
def gracefulResolved (seconds : Int) : Resolved :=
  { leaseName := "checkout", leaseNamespace := "prod", mode := .runtimeSingleton, enforce := .probe
    signalTarget := "", ttlSeconds := 30, heartbeatSeconds := 0, enforceGrace := seconds
    releaseOnDown := "", holderIdentity := "", workloadKind := "", workloadName := "" }

def checkoutFields : PodFields := ⟨"prod", "checkout-0", "6b"⟩

theorem checkoutFields_wellFormed : checkoutFields.WellFormed where
  uid := by decide
  plain := by
    intro ch hch
    have hcases : ch = '6' ∨ ch = 'b' := by simpa [checkoutFields] using hch
    rcases hcases with rfl | rfl <;> decide

theorem helper_accepts_graceful :
    ∃ c, configFromEnv (environment (servedInjector.buildEnv (gracefulResolved 20)) checkoutFields)
        = .ok c ∧ c.validate = none ∧
      c.applyDefaults = servedInjector.helperConfig (gracefulResolved 20) checkoutFields := by
  obtain ⟨c, hread, hvalid, hconfig, -⟩ := (helper_accepts_iff servedInjector (graceful "20") "prod"
    (gracefulResolved 20) checkoutFields (by decide) (by decide) (by decide) rfl
    checkoutFields_wellFormed (fun _ _ => by decide)).mpr (by decide)
  exact ⟨c, hread, hvalid, hconfig⟩

/-- The webhook admits a grace of 9223372037 s, which the helper rejects,
and one of 18446744074 s, which it takes for a third of a second. -/
theorem grace_overflows :
    (servedInjector.resolve (graceful "9223372037") "prod" = .ok (gracefulResolved 9223372037) ∧
      ∃ c, configFromEnv (environment (servedInjector.buildEnv (gracefulResolved 9223372037))
          checkoutFields) = .ok c ∧
        c.validate = some (.new "enforce grace must not be negative")) ∧
    servedInjector.resolve (graceful "18446744074") "prod" = .ok (gracefulResolved 18446744074) ∧
      ∃ c, configFromEnv (environment (servedInjector.buildEnv (gracefulResolved 18446744074))
          checkoutFields) = .ok c ∧
        c.validate = none ∧ c.applyDefaults.enforceGrace = 290448384 := by
  refine ⟨⟨rfl, _, rfl, ?_⟩, rfl, _, rfl, ?_, ?_⟩ <;> decide

end PodInjector

end Berth.Webhook
