/-
Berth.Webhook.Config — the operator's settings for injection and their
validation (`InjectorConfig` of `internal/webhook/inject.go`).
-/
import Berth.Checks.First
import Berth.Path.Clean
import Berth.Webhook.Pod

namespace Berth.Webhook

open Berth.Acquire Berth.Checks Berth.Lease

/-- `InjectorConfig`. -/
structure InjectorConfig where
  helperImage : String := ""
  imagePullPolicy : PullPolicy := .unset
  apiServer : String := ""
  apiKeyFile : String := ""
  caBundleFile : String := ""
  serverName : String := ""
  clusterID : String := ""
  insecureSkipVerify : Bool := false
  apiKeySecretName : String := ""
  apiKeySecretKey : String := ""
  caBundleConfigMapName : String := ""
  caBundleKey : String := ""
  controlPlaneNamespaces : List String := []
  defaultTTLSeconds : Int := 0
  defaultMode : Mode := .other ""
  defaultEnforce : Enforce := .other ""
  stateDir : String := ""
  deriving DecidableEq, Repr

/-- `validateMountableFile`. -/
def validateMountableFile (field p : String) : Option Err :=
  refuse (Path.isAbs p = false)
    (.new ("injection webhook: " ++ field ++ " must be an absolute path, got " ++ quote p)) <|>
  refuse (Path.clean p ≠ p)
    (.new ("injection webhook: " ++ field ++ " must be a clean path with no trailing slash, " ++
      quote "." ++ ", or " ++ quote ".." ++ " segments, got " ++ quote p)) <|>
  refuse (Path.dir p = "/")
    (.new ("injection webhook: " ++ field ++ " must have a non-root parent directory, got " ++
      quote p))

namespace InjectorConfig

/-- `InjectorConfig.Validate`. -/
def validate (c : InjectorConfig) : Option Err :=
  refuse (c.helperImage = "") (.new "injection webhook: helper image is required") <|>
  refuse (c.imagePullPolicy ∉ [PullPolicy.unset, .always, .ifNotPresent, .never])
    (.new ("injection webhook: invalid helper image pull policy " ++
      quote c.imagePullPolicy.text ++ " (want Always, IfNotPresent, or Never)")) <|>
  refuse (c.defaultMode ∉ [Mode.startupGate, .runtimeSingleton])
    (.new ("injection webhook: invalid default mode " ++ quote c.defaultMode.text)) <|>
  refuse (c.defaultEnforce ∉ [Enforce.probe, .signal])
    (.new ("injection webhook: invalid default enforce " ++ quote c.defaultEnforce.text)) <|>
  refuse (c.defaultTTLSeconds ≤ 0 ∨ maxInt32 < c.defaultTTLSeconds)
    (.new ("injection webhook: default ttl-seconds must be between 1 and 2147483647 seconds, got "
      ++ formatInt c.defaultTTLSeconds)) <|>
  refuse (Path.isAbs c.stateDir = false)
    (.new ("injection webhook: state-dir must be an absolute path, got " ++ quote c.stateDir)) <|>
  refuse ((c.apiKeyFile == "") ≠ (c.apiKeySecretName == ""))
    (.new ("injection webhook: api-key file and secret must be set together (file=" ++
      quote c.apiKeyFile ++ " secret=" ++ quote c.apiKeySecretName ++ ")")) <|>
  refuse ((c.caBundleFile == "") ≠ (c.caBundleConfigMapName == ""))
    (.new ("injection webhook: ca-bundle file and configmap must be set together (file=" ++
      quote c.caBundleFile ++ " configmap=" ++ quote c.caBundleConfigMapName ++ ")")) <|>
  (if c.apiKeyFile ≠ "" then validateMountableFile "api-key file" c.apiKeyFile else none) <|>
  (if c.caBundleFile ≠ "" then validateMountableFile "ca-bundle file" c.caBundleFile else none) <|>
  refuse (c.apiKeyFile ≠ "" ∧ Path.dir c.apiKeyFile = Path.clean c.stateDir)
    (.new ("injection webhook: api-key file directory " ++ quote (Path.dir c.apiKeyFile) ++
      " must differ from state-dir " ++ quote (Path.clean c.stateDir))) <|>
  refuse (c.caBundleFile ≠ "" ∧ Path.dir c.caBundleFile = Path.clean c.stateDir)
    (.new ("injection webhook: ca-bundle file directory " ++ quote (Path.dir c.caBundleFile) ++
      " must differ from state-dir " ++ quote (Path.clean c.stateDir))) <|>
  refuse (c.apiKeyFile ≠ "" ∧ c.caBundleFile ≠ "" ∧
      Path.dir c.apiKeyFile = Path.dir c.caBundleFile)
    (.new ("injection webhook: api-key and ca-bundle files must be in different directories (both "
      ++ quote (Path.dir c.apiKeyFile) ++ ")"))

/-- `InjectorConfig.withDefaults`. -/
def withDefaults (c : InjectorConfig) : InjectorConfig :=
  { c with
    imagePullPolicy :=
      if c.imagePullPolicy = .unset then .ifNotPresent else c.imagePullPolicy
    defaultMode := if c.defaultMode = .other "" then .runtimeSingleton else c.defaultMode
    defaultEnforce := if c.defaultEnforce = .other "" then .probe else c.defaultEnforce
    stateDir := if c.stateDir = "" then defaultStateDir else c.stateDir
    apiKeySecretKey :=
      if c.apiKeySecretName ≠ "" ∧ c.apiKeySecretKey = "" then "token" else c.apiKeySecretKey
    caBundleKey :=
      if c.caBundleConfigMapName ≠ "" ∧ c.caBundleKey = "" then "ca.crt" else c.caBundleKey }

/-- A configuration that passes its validation has an absolute state
directory. -/
theorem isAbs_of_validate {c : InjectorConfig} (h : c.validate = none) :
    Path.isAbs c.stateDir = true := by
  simp only [validate, Option.orElse_eq_none, refuse_eq_none] at h
  simpa using h.2.2.2.2.2.1

end InjectorConfig

end Berth.Webhook
