/-
Berth.Webhook.Inject — the mutating and the validating webhook for Pods
(`internal/webhook/inject.go`, `validate.go`).

`Default` runs on Pod creation and on the `ephemeralcontainers`
subresource: it reserves the state volume on both paths and, on creation,
adds the helpers and the kubelet probe. `ValidateCreate` looks at the Pod
again once every other webhook has run. The rejection counters are not
modelled.
-/
import Berth.Webhook.Config

namespace Berth.Webhook

open Berth.Acquire Berth.Checks Berth.Lease

/-- `PodInjector`. -/
structure PodInjector where
  cfg : InjectorConfig
  deriving DecidableEq, Repr

/-- `NewPodInjector`. -/
def newPodInjector (cfg : InjectorConfig) : PodInjector := ⟨cfg.withDefaults⟩

/-- The namespace of a request, as far as it is known, or the Pod's own. -/
def requestNamespace (req : Option Request) (pod : Pod) : String :=
  match req with
  | some r => orDefault r.ns pod.ns
  | none => pod.ns

/-- The request is for the `ephemeralcontainers` subresource. -/
def onEphemeralPath (req : Option Request) : Bool :=
  req.any (·.subResource == subresourceEphemeralContainers)

/-! ## The reserved state volume -/

/-- `isInjectorOwnedContainer`. -/
def isInjectorOwnedContainer (name : String) : Bool :=
  name == initContainerName || name == sidecarContainerName

/-- `rejectStateMount`. -/
def rejectStateMount (reason : RejectReason) (container : String) (m : VolumeMount) : Err :=
  match reason with
  | .writableStateMountEphemeral =>
    .new ("cannot attach ephemeral container " ++ quote container ++
      ": it mounts the Berth state volume " ++ quote m.name ++ " writably at " ++
      quote m.mountPath ++
      ". The pod itself is healthy — this debug request is refused. The state volume " ++
      "is reserved: write access would let a container forge the health marker and replace the " ++
      "probe's check binary, defeating at-most-once enforcement. Re-run with the mount marked " ++
      "readOnly: true, or without mounting " ++ volumeName)
  | .writableStateMount =>
    .new ("cannot inject: container " ++ quote container ++ " mounts the Berth state volume " ++
      quote m.name ++ " writably at " ++ quote m.mountPath ++
      ". The state volume is reserved: a writable mount lets the workload forge the health " ++
      "marker and replace the probe's check binary, defeating at-most-once enforcement. Either " ++
      "mark the mount readOnly: true, or use a separate volume for workload data")

/-- The closure `owned` of `checkStateVolumeMounts`. -/
def owned (alreadyInjected : Bool) (name : String) : Bool :=
  alreadyInjected && isInjectorOwnedContainer name

/-- The rule for ephemeral containers: nothing is repaired. -/
def checkEphemeral (alreadyInjected : Bool) (c : Container) : Option Err :=
  if owned alreadyInjected c.name then none
  else
    c.volumeMounts.findSome? fun m =>
      refuse (m.name = volumeName ∧ m.readOnly = false)
        (rejectStateMount .writableStateMountEphemeral c.name m)

namespace PodInjector

/-- The rule for one mount of a container or an init container. -/
def checkMount (i : PodInjector) (alreadyInjected : Bool) (container : String) (m : VolumeMount) :
    Except Err VolumeMount :=
  if m.name ≠ volumeName ∨ m.readOnly = true then .ok m
  else if alreadyInjected = false ∧ m.mountPath = i.cfg.stateDir then
    .ok { m with readOnly := true }
  else .error (rejectStateMount .writableStateMount container m)

def checkContainer (i : PodInjector) (alreadyInjected : Bool) (c : Container) :
    Except Err Container :=
  if owned alreadyInjected c.name then .ok c
  else do
    let volumeMounts ← c.volumeMounts.mapM (i.checkMount alreadyInjected c.name)
    return { c with volumeMounts }

/-- `checkStateVolumeMounts`, with the Pod it leaves. -/
def checkStateVolumeMounts (i : PodInjector) (pod : Pod) (alreadyInjected : Bool) :
    Except Err Pod := do
  let containers ← pod.containers.mapM (i.checkContainer alreadyInjected)
  let initContainers ← pod.initContainers.mapM (i.checkContainer alreadyInjected)
  pass (pod.ephemeralContainers.findSome? (checkEphemeral alreadyInjected))
  return { pod with containers, initContainers }

/-- The mount lies at the state directory or below it, by the cleaned
texts. -/
def atStateDir (i : PodInjector) (m : VolumeMount) : Bool :=
  let root := Path.clean i.cfg.stateDir
  let mount := Path.clean m.mountPath
  mount == root || Path.hasPrefix mount (Path.trimSuffix root "/" ++ "/")

/-- The loop of `validateProbeMounts`, with its flag `found`. -/
def probeMountsLoop (i : PodInjector) (container : String) :
    Bool → List VolumeMount → Except Err Bool
  | found, [] => .ok found
  | found, m :: ms =>
    if i.atStateDir m = true ∧ (m.mountPath ≠ i.cfg.stateDir ∨ m.name ≠ volumeName ∨
        m.subPath ≠ "" ∨ m.subPathExpr ≠ "" ∨ m.readOnly = false) then
      .error (.new ("cannot enforce runtime container " ++ quote container ++ ": mount " ++
        quote m.name ++ " at " ++ quote m.mountPath ++
        " hides or alters the required read-only Berth state mount"))
    else if m.name = volumeName ∧ m.readOnly = false then
      .error (.new ("cannot enforce runtime container " ++ quote container ++
        ": writable Berth state mount"))
    else i.probeMountsLoop container (found || i.atStateDir m) ms

/-- `validateProbeMounts`. -/
def validateProbeMounts (i : PodInjector) (c : Container) (required : Bool) : Option Err :=
  match i.probeMountsLoop c.name false c.volumeMounts with
  | .error e => some e
  | .ok found =>
    refuse (required = true ∧ found = false)
      (.new ("cannot enforce runtime container " ++ quote c.name ++ ": missing Berth state mount"))

end PodInjector

/-! ## Per-Pod configuration -/

/-- `resolved`. -/
structure Resolved where
  leaseName : String
  leaseNamespace : String
  mode : Mode
  enforce : Enforce
  signalTarget : String
  ttlSeconds : Int
  heartbeatSeconds : Int
  enforceGrace : Int
  releaseOnDown : String
  holderIdentity : String
  workloadKind : String
  workloadName : String
  deriving DecidableEq, Repr

/-- `intAnn`. -/
def intAnn (pod : Pod) (key : String) (d : Int) : Except Err Int :=
  if pod.ann key = "" then .ok d
  else
    match atoi (pod.ann key) with
    | none => .error (.new ("invalid " ++ key ++ " " ++ quote (pod.ann key) ++
        ": must be an integer"))
    | some n => .ok n

/-- `resolved.validate`. -/
def Resolved.validate (r : Resolved) : Option Err :=
  refuse (r.leaseName = "")
    (.new (annLeaseName ++ " is required when " ++ labelInject ++ "=" ++ injectValueAcquire)) <|>
  refuse (r.mode ∉ [Mode.startupGate, .runtimeSingleton])
    (.new ("invalid " ++ annMode ++ " " ++ quote r.mode.text)) <|>
  refuse (r.enforce ∉ [Enforce.probe, .signal])
    (.new ("invalid " ++ annEnforce ++ " " ++ quote r.enforce.text)) <|>
  refuse (r.mode = .runtimeSingleton ∧ r.enforce = .signal ∧ r.signalTarget = "")
    (.new (annSignalTarget ++ " is required when " ++ annMode ++ "=" ++
      Mode.runtimeSingleton.text ++ " and " ++ annEnforce ++ "=" ++ Enforce.signal.text ++
      ": an empty target signals every process in the shared " ++
      "PID namespace, which can terminate co-located sidecars; set it to the workload's " ++
      "process name (comm or executable basename)")) <|>
  refuse (r.ttlSeconds ≤ 0 ∨ maxInt32 < r.ttlSeconds)
    (.new (annTTLSeconds ++ " must be between 1 and 2147483647 seconds")) <|>
  refuse (r.heartbeatSeconds < 0) (.new (annHeartbeatSeconds ++ " must not be negative")) <|>
  refuse (0 < r.heartbeatSeconds ∧ r.ttlSeconds ≤ r.heartbeatSeconds)
    (.new (annHeartbeatSeconds ++ " (" ++ formatInt r.heartbeatSeconds ++
      ") must be less than " ++ annTTLSeconds ++ " (" ++ formatInt r.ttlSeconds ++ ")")) <|>
  refuse (r.enforceGrace < 0) (.new (annEnforceGraceSeconds ++ " must not be negative")) <|>
  refuse (r.releaseOnDown ∉ ["", "true", "false"])
    (.new ("invalid " ++ annReleaseOnShutdown ++ " " ++ quote r.releaseOnDown ++
      " (want true or false)"))

namespace PodInjector

/-- The mode a Pod asks for. -/
def mode (i : PodInjector) (pod : Pod) : Mode :=
  .ofText (orDefault (pod.ann annMode) i.cfg.defaultMode.text)

/-- `resolve`. -/
def resolve (i : PodInjector) (pod : Pod) (ns : String) : Except Err Resolved := do
  let ttlSeconds ← intAnn pod annTTLSeconds i.cfg.defaultTTLSeconds
  let heartbeatSeconds ← intAnn pod annHeartbeatSeconds 0
  let enforceGrace ← intAnn pod annEnforceGraceSeconds 0
  let r : Resolved :=
    { leaseName := pod.ann annLeaseName
      leaseNamespace := orDefault (pod.ann annLeaseNamespace) ns
      mode := i.mode pod
      enforce := .ofText (orDefault (pod.ann annEnforce) i.cfg.defaultEnforce.text)
      signalTarget := pod.ann annSignalTarget
      ttlSeconds, heartbeatSeconds, enforceGrace
      releaseOnDown := pod.ann annReleaseOnShutdown
      holderIdentity := pod.ann annHolderIdentity
      workloadKind := ((controllerOwner pod).map (·.kind)).getD ""
      workloadName := ((controllerOwner pod).map (·.name)).getD "" }
  pass r.validate
  pass (refuse (r.mode = .runtimeSingleton ∧ r.enforce = .signal ∧
      pod.shareProcessNamespace = some false)
    (.new (annEnforce ++ "=" ++ Enforce.signal.text ++
      " requires shareProcessNamespace, but the pod sets it to false")))
  return r

/-- `isControlPlane`. -/
def isControlPlane (i : PodInjector) (ns : String) : Bool :=
  i.cfg.controlPlaneNamespaces.any (· == ns)

/-! ## Preflight -/

/-- The names `preflight` reserves: those of the helpers it will add. -/
def reserved (r : Resolved) : List String :=
  initContainerName :: if r.mode = .runtimeSingleton then [sidecarContainerName] else []

/-- What `preflight` asks of a main container in runtime mode. -/
def preflightContainer (i : PodInjector) (c : Container) : Option Err :=
  refuse (c.livenessProbe ≠ none)
    (.new ("cannot inject runtime enforcement: container " ++ quote c.name ++
      " already defines a livenessProbe; Berth must own the liveness probe in both probe and " ++
      "signal modes")) <|>
  refuse (c.startupProbe ≠ none)
    (.new ("cannot inject runtime enforcement: container " ++ quote c.name ++
      " defines a startupProbe that can delay Berth liveness enforcement")) <|>
  i.validateProbeMounts c false

/-- `preflight`. -/
def preflight (i : PodInjector) (pod : Pod) (r : Resolved) : Option Err :=
  (reserved r).findSome? (fun name =>
    refuse (hasContainerNamed pod.initContainers name = true ∨
        hasContainerNamed pod.containers name = true)
      (.new ("cannot inject: pod already has a container named " ++ quote name))) <|>
  (pod.initContainers.head?.bind fun c =>
    refuse (r.mode = .runtimeSingleton)
      (.new ("cannot inject runtime-singleton: workload init container " ++ quote c.name ++
        " is unsupported; init containers and native sidecars cannot be reliably fenced"))) <|>
  pod.volumes.findSome? (fun v =>
    refuse (v.name = volumeName ∧ v.emptyDir = none)
      (.new ("cannot inject: pod already has a volume named " ++ quote volumeName ++
        " that is not an emptyDir"))) <|>
  refuse (i.cfg.apiKeySecretName ≠ "" ∧ hasVolume pod authTokenVolume = true)
    (.new ("cannot inject: pod already has a volume named " ++ quote authTokenVolume ++
      " (reserved for the injected auth token)")) <|>
  refuse (i.cfg.caBundleConfigMapName ≠ "" ∧ hasVolume pod authCABundleVolume = true)
    (.new ("cannot inject: pod already has a volume named " ++ quote authCABundleVolume ++
      " (reserved for the injected CA bundle)")) <|>
  (if r.mode = .runtimeSingleton then pod.containers.findSome? i.preflightContainer else none)

/-! ## Mutation -/

/-- `authVolumeMounts`. -/
def authVolumeMounts (i : PodInjector) : List Volume × List VolumeMount :=
  let token : List Volume × List VolumeMount :=
    if i.cfg.apiKeySecretName ≠ "" then
      ([{ name := authTokenVolume
          secret := some ⟨i.cfg.apiKeySecretName,
            [⟨i.cfg.apiKeySecretKey, Path.base i.cfg.apiKeyFile⟩], ""⟩ }],
        [{ name := authTokenVolume, mountPath := Path.dir i.cfg.apiKeyFile, readOnly := true }])
    else ([], [])
  let bundle : List Volume × List VolumeMount :=
    if i.cfg.caBundleConfigMapName ≠ "" then
      ([{ name := authCABundleVolume
          configMap := some ⟨i.cfg.caBundleConfigMapName,
            [⟨i.cfg.caBundleKey, Path.base i.cfg.caBundleFile⟩], ""⟩ }],
        [{ name := authCABundleVolume, mountPath := Path.dir i.cfg.caBundleFile
           readOnly := true }])
    else ([], [])
  (token.1 ++ bundle.1, token.2 ++ bundle.2)

end PodInjector

/-- `appendIf`. -/
def appendIf (env : List EnvVar) (cond : Bool) (name value : String) : List EnvVar :=
  if cond then env ++ [{ name := name, value := value }] else env

/-- `Duration.String` of a whole number of seconds. -/
def secondsString (n : Int) : String :=
  let u := n.natAbs
  (if n < 0 then "-" else "") ++
    (if u / 3600 ≠ 0 then toString (u / 3600) ++ "h" else "") ++
    (if u / 60 ≠ 0 then toString (u / 60 % 60) ++ "m" else "") ++ toString (u % 60) ++ "s"

namespace PodInjector

/-- `buildEnv`. -/
def buildEnv (i : PodInjector) (r : Resolved) : List EnvVar :=
  let env : List EnvVar :=
    [{ name := envLeaseName, value := r.leaseName },
      { name := envLeaseNamespace, value := r.leaseNamespace },
      { name := envMode, value := r.mode.text },
      { name := envEnforce, value := r.enforce.text },
      { name := envTTLSeconds, value := formatInt r.ttlSeconds },
      { name := envStateDir, value := i.cfg.stateDir },
      { name := envPodNamespace, fieldRef := some "metadata.namespace" },
      { name := envPodName, fieldRef := some "metadata.name" },
      { name := envPodUID, fieldRef := some "metadata.uid" }]
  let env := appendIf env (r.signalTarget != "" && r.enforce == .signal) envSignalTarget
    r.signalTarget
  let env := appendIf env (0 < r.heartbeatSeconds) envHeartbeatSecs (formatInt r.heartbeatSeconds)
  let env := appendIf env (0 < r.enforceGrace) envEnforceGrace (formatInt r.enforceGrace)
  let env := appendIf env (r.releaseOnDown != "") envReleaseOnDown r.releaseOnDown
  let env := appendIf env (r.holderIdentity != "") envHolderIdentity r.holderIdentity
  let env := appendIf env (r.workloadKind != "") envWorkloadKind r.workloadKind
  let env := appendIf env (r.workloadName != "") envWorkloadName r.workloadName
  let env := appendIf env (i.cfg.clusterID != "") envClusterID i.cfg.clusterID
  let env := appendIf env (i.cfg.apiServer != "") envAPIServer i.cfg.apiServer
  let env := appendIf env (i.cfg.apiKeyFile != "") envAPIKeyFile i.cfg.apiKeyFile
  let env := appendIf env (i.cfg.caBundleFile != "") envCABundleFile i.cfg.caBundleFile
  let env := appendIf env (i.cfg.serverName != "") envServerName i.cfg.serverName
  appendIf env i.cfg.insecureSkipVerify envInsecure "true"

/-- `freshnessProbe`. -/
def freshnessProbe (i : PodInjector) (r : Resolved) : Probe :=
  { exec := some [i.cfg.stateDir ++ "/check", "check", i.cfg.stateDir ++ "/healthy", "--max-age",
      secondsString r.ttlSeconds]
    periodSeconds := 2
    timeoutSeconds := 1
    successThreshold := 1
    failureThreshold := 1
    terminationGracePeriodSeconds := some 1 }

/-- The mounts of a helper: the state volume, writable, and the auth
sources. -/
def helperMounts (i : PodInjector) : List VolumeMount :=
  { name := volumeName, mountPath := i.cfg.stateDir } :: i.authVolumeMounts.2

/-- The init container that holds the Pod back. -/
def initHelper (i : PodInjector) (r : Resolved) : Container :=
  { name := initContainerName
    image := i.cfg.helperImage
    imagePullPolicy := i.cfg.imagePullPolicy
    args := ["acquire"]
    env := i.buildEnv r
    volumeMounts := i.helperMounts }

/-- The native sidecar that renews. -/
def sidecarHelper (i : PodInjector) (r : Resolved) : Container :=
  { name := sidecarContainerName
    image := i.cfg.helperImage
    imagePullPolicy := i.cfg.imagePullPolicy
    args := ["renew"]
    env := i.buildEnv r
    restartPolicy := some .always
    volumeMounts := i.helperMounts }

/-- The containers `mutate` puts in front. -/
def helpers (i : PodInjector) (r : Resolved) : List Container :=
  i.initHelper r :: if r.mode = .runtimeSingleton then [i.sidecarHelper r] else []

/-- `applyEnforcement` on one container. -/
def enforceContainer (i : PodInjector) (r : Resolved) (c : Container) : Container :=
  { c with
    livenessProbe := some (i.freshnessProbe r)
    volumeMounts :=
      if containerHasMountAt c volumeName i.cfg.stateDir then c.volumeMounts
      else c.volumeMounts ++
        [{ name := volumeName, mountPath := i.cfg.stateDir, readOnly := true }] }

/-- `applyEnforcement`. -/
def applyEnforcement (i : PodInjector) (pod : Pod) (r : Resolved) : Pod :=
  { pod with
    shareProcessNamespace :=
      if r.enforce = .signal then some true else pod.shareProcessNamespace
    containers := pod.containers.map (i.enforceContainer r) }

/-- Append a volume unless its name is taken. -/
def addVolume (pod : Pod) (v : Volume) : Pod :=
  if hasVolume pod v.name then pod else { pod with volumes := pod.volumes ++ [v] }

/-- `mutate`. -/
def mutate (i : PodInjector) (pod : Pod) (r : Resolved) : Pod :=
  let pod := addVolume pod { name := volumeName, emptyDir := some "" }
  let pod := i.authVolumeMounts.1.foldl addVolume pod
  let pod := { pod with initContainers := i.helpers r ++ pod.initContainers }
  let pod := if r.mode = .runtimeSingleton then i.applyEnforcement pod r else pod
  { pod with annotations := pod.annotations.insert annInjected "true" }

/-! ## The two webhooks -/

/-- `Default`, with the Pod it leaves. -/
def default (i : PodInjector) (req : Option Request) (pod : Pod) : Except Err Pod :=
  let ns := requestNamespace req pod
  if i.isControlPlane ns = true ∨ pod.optedIn = false then .ok pod
  else do
    let pod ← i.checkStateVolumeMounts pod (onEphemeralPath req)
    if onEphemeralPath req then return pod
    else
      let r ← i.resolve pod ns
      pass (i.preflight pod r)
      return i.mutate pod r

/-- The init containers are the two helpers, in their order. -/
def onlyHelpers : List Container → Bool
  | [a, b] =>
    a.name == initContainerName && b.name == sidecarContainerName && a.restartPolicy == none &&
      b.restartPolicy == some .always
  | _ => false

/-- What `ValidateCreate` asks of a main container. -/
def validateContainer (i : PodInjector) (r : Resolved) (c : Container) : Option Err :=
  refuse (c.startupProbe ≠ none ∨ c.livenessProbe ≠ some (i.freshnessProbe r))
    (.new ("cannot admit runtime container " ++ quote c.name ++
      ": the unmodified Berth liveness probe is required and startup probes are unsupported")) <|>
  i.validateProbeMounts c true

/-- `ValidateCreate` on a runtime-singleton Pod. -/
def validateRuntime (i : PodInjector) (pod : Pod) (r : Resolved) : Option Err :=
  refuse (onlyHelpers pod.initContainers = false)
    (.new ("cannot admit runtime-singleton: only the injected " ++ initContainerName ++ " and " ++
      sidecarContainerName ++ " init containers are supported; workload init containers and " ++
      "native sidecars cannot be reliably fenced")) <|>
  pod.volumes.findSome? (fun v =>
    refuse (v.name = volumeName ∧ v.emptyDir = none)
      (.new "cannot admit runtime workload: Berth state volume must remain an emptyDir")) <|>
  refuse (hasVolume pod volumeName = false)
    (.new "cannot admit runtime workload: Berth state volume is missing") <|>
  pod.containers.findSome? (i.validateContainer r)

/-- `ValidateCreate`. -/
def validateCreate (i : PodInjector) (req : Option Request) (pod : Pod) : Option Err :=
  let ns := requestNamespace req pod
  if i.isControlPlane ns = true ∨ pod.optedIn = false then none
  else
    match i.resolve pod ns with
    | .error e => some e
    | .ok r => if r.mode ≠ .runtimeSingleton then none else i.validateRuntime pod r

end PodInjector

end Berth.Webhook
