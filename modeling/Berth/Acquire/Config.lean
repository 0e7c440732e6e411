/-
Berth.Acquire.Config — where the helper's configuration comes from and
what it must satisfy (`internal/acquire/config.go`, `env.go`).

`configFromEnv` reads the environment the webhook has written, `validate`
fills in what is unset and stops at the first complaint. A number of
seconds becomes a `Duration` by a multiplication in `int64`, before
anything is checked about it.
-/
import Berth.Acquire.Helper
import Berth.Checks.First
import Berth.GoTime.Duration

namespace Berth.Acquire

open Berth.Checks Berth.GoTime Berth.Lease

/-! ## The helper's words -/

/-- `Mode` of a text. -/
def Mode.ofText (s : String) : Mode :=
  if s = "startup-gate" then .startupGate
  else if s = "runtime-singleton" then .runtimeSingleton
  else .other s

def Mode.text : Mode → String
  | .startupGate => "startup-gate"
  | .runtimeSingleton => "runtime-singleton"
  | .other s => s

/-- `Enforce` of a text. -/
def Enforce.ofText (s : String) : Enforce :=
  if s = "probe" then .probe else if s = "signal" then .signal else .other s

def Enforce.text : Enforce → String
  | .probe => "probe"
  | .signal => "signal"
  | .other s => s

/-- `DefaultStateDir`. -/
def defaultStateDir : String := "/berth"

def envLeaseName : String := "BERTH_LEASE_NAME"
def envLeaseNamespace : String := "BERTH_LEASE_NAMESPACE"
def envMode : String := "BERTH_MODE"
def envEnforce : String := "BERTH_ENFORCE"
def envSignalTarget : String := "BERTH_SIGNAL_TARGET"
def envTTLSeconds : String := "BERTH_TTL_SECONDS"
def envHeartbeatSecs : String := "BERTH_HEARTBEAT_SECONDS"
def envEnforceGrace : String := "BERTH_ENFORCE_GRACE_SECONDS"
def envReleaseOnDown : String := "BERTH_RELEASE_ON_SHUTDOWN"
def envHolderIdentity : String := "BERTH_HOLDER_IDENTITY"
def envClusterID : String := "BERTH_CLUSTER_ID"
def envWorkloadKind : String := "BERTH_WORKLOAD_KIND"
def envWorkloadName : String := "BERTH_WORKLOAD_NAME"
def envStateDir : String := "BERTH_STATE_DIR"
def envAPIServer : String := "BERTH_API_SERVER"
def envAPIKey : String := "BERTH_API_KEY"
def envAPIKeyFile : String := "BERTH_API_KEY_FILE"
def envCABundleFile : String := "BERTH_CA_BUNDLE_FILE"
def envServerName : String := "BERTH_SERVER_NAME"
def envInsecure : String := "BERTH_INSECURE_SKIP_TLS_VERIFY"
def envPodNamespace : String := "POD_NAMESPACE"
def envPodName : String := "POD_NAME"
def envPodUID : String := "POD_UID"

/-! ## Defaults and checks -/

/-- `strings.ContainsAny`. -/
def containsAny (s chars : String) : Bool := s.toList.any chars.toList.contains

namespace Config

/-- `Config.ApplyDefaults`. -/
def applyDefaults (c : Config) : Config :=
  let mode := if c.mode = .other "" then .runtimeSingleton else c.mode
  { c with
    stateDir := if c.stateDir = "" then defaultStateDir else c.stateDir
    mode := mode
    enforce := if c.enforce = .other "" then .probe else c.enforce
    leaseNamespace := if c.leaseNamespace = "" then c.podNamespace else c.leaseNamespace
    heartbeatInterval :=
      if c.heartbeatInterval ≤ 0 ∧ 0 < c.ttl then c.ttl.tdiv 3 else c.heartbeatInterval
    releaseOnShutdown := some (c.releaseOnShutdown.getD (mode == .runtimeSingleton)) }

/-- What `Config.Validate` asks of the parts of a derived runtime holder. -/
def checkRuntimeHolder (c : Config) : Option Err :=
  refuse (c.podUID = "")
    (.new ("pod UID is required for the runtime-singleton holder (set --pod-uid or POD_UID from " ++
      "metadata.uid)")) <|>
  refuse (containsAny c.podUID ":/ \t\r\n" = true ∨ trimSpace c.podUID ≠ c.podUID)
    (.new "pod UID must be a non-whitespace identity component without ':' or '/'") <|>
  refuse (253 < c.holder.utf8ByteSize)
    (.new ("runtime holder exceeds the API limit of 253 bytes; shorten cluster, workload or pod " ++
      "names"))

/-- The checks of `Config.Validate`, on a configuration with its defaults. -/
def check (c : Config) : Option Err :=
  refuse (c.leaseName = "") (.new "lease name is required") <|>
  refuse (c.leaseNamespace = "")
    (.new "lease namespace is required (set --lease-namespace or POD_NAMESPACE)") <|>
  refuse (c.mode ∉ [Mode.startupGate, .runtimeSingleton])
    (.new ("invalid mode " ++ quote c.mode.text ++ " (want " ++ quote Mode.startupGate.text ++
      " or " ++ quote Mode.runtimeSingleton.text ++ ")")) <|>
  refuse (c.enforce ∉ [Enforce.probe, .signal])
    (.new ("invalid enforce " ++ quote c.enforce.text ++ " (want " ++ quote Enforce.probe.text ++
      " or " ++ quote Enforce.signal.text ++ ")")) <|>
  refuse (c.mode = .runtimeSingleton ∧ c.enforce = .signal ∧ c.signalTarget = "")
    (.new ("signal target is required when enforce=" ++ Enforce.signal.text ++ " in mode=" ++
      Mode.runtimeSingleton.text ++ ": set " ++ envSignalTarget ++ " to a process " ++
      "comm or executable basename (e.g. " ++ quote "nginx" ++
      "); an empty target signals every process in the " ++
      "shared PID namespace, which can terminate co-located sidecars")) <|>
  (if c.mode = .runtimeSingleton ∧ c.holderIdentity = "" then c.checkRuntimeHolder else none) <|>
  refuse (c.ttl ≤ 0 ∨ maxInt32 * second < c.ttl)
    (.new "ttl must be positive and at most 2147483647 seconds (the API limit)") <|>
  refuse (c.heartbeatInterval ≤ 0) (.new "heartbeat interval must be positive") <|>
  refuse (c.ttl ≤ c.heartbeatInterval)
    (.new ("heartbeat interval (" ++ durationString c.heartbeatInterval ++
      ") must be less than ttl (" ++ durationString c.ttl ++ ")")) <|>
  refuse (c.enforceGrace < 0) (.new "enforce grace must not be negative") <|>
  refuse (c.apiServer = "") (.new "api server URL is required") <|>
  refuse (c.apiKey ≠ "" ∧ c.apiKeyFile ≠ "")
    (.new "api key and api key file are mutually exclusive")

/-- `Config.Validate`. It leaves the configuration with its defaults,
whatever it finds. -/
def validate (c : Config) : Option Err := c.applyDefaults.check

end Config

/-! ## Environment -/

/-- `secondsEnv`; the product is an `int64`. -/
def secondsEnv (get : String → String) (key : String) : Except Err Duration :=
  if get key = "" then .ok 0
  else
    match atoi (get key) with
    | none =>
      .error (.new (key ++ "=" ++ quote (get key) ++ ": must be an integer number of seconds"))
    | some n => .ok (toInt64 (n * second))

/-- `strconv.ParseBool`. -/
def parseBool (s : String) : Except Err Bool :=
  if s ∈ ["1", "t", "T", "TRUE", "true", "True"] then .ok true
  else if s ∈ ["0", "f", "F", "FALSE", "false", "False"] then .ok false
  else .error (.new ("strconv.ParseBool: parsing " ++ quote s ++ ": invalid syntax"))

/-- A Boolean variable, if it is set. -/
def boolEnv (get : String → String) (key : String) : Except Err (Option Bool) :=
  if get key = "" then .ok none
  else
    match parseBool (get key) with
    | .error e => .error (.wrap (key ++ "=" ++ quote (get key)) e)
    | .ok b => .ok (some b)

/-- `ConfigFromEnv`. -/
def configFromEnv (get : String → String) : Except Err Config := do
  let ttl ← secondsEnv get envTTLSeconds
  let heartbeatInterval ← secondsEnv get envHeartbeatSecs
  let enforceGrace ← secondsEnv get envEnforceGrace
  let releaseOnShutdown ← boolEnv get envReleaseOnDown
  let insecure ← boolEnv get envInsecure
  return {
    leaseName := get envLeaseName
    leaseNamespace := get envLeaseNamespace
    mode := .ofText (get envMode)
    enforce := .ofText (get envEnforce)
    ttl, heartbeatInterval, enforceGrace, releaseOnShutdown
    signalTarget := get envSignalTarget
    holderIdentity := get envHolderIdentity
    clusterID := get envClusterID
    podNamespace := get envPodNamespace
    podName := get envPodName
    podUID := get envPodUID
    workloadKind := get envWorkloadKind
    workloadName := get envWorkloadName
    stateDir := get envStateDir
    apiServer := get envAPIServer
    apiKey := get envAPIKey
    apiKeyFile := get envAPIKeyFile
    caBundleFile := get envCABundleFile
    serverName := get envServerName
    insecureSkipVerify := insecure.getD false }

end Berth.Acquire
