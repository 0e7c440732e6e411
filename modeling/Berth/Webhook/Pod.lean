/-
Berth.Webhook.Pod — the Pods the injection webhook reads and writes, and
the words of its contract (`internal/webhook/contract.go`).

A record holds the fields the webhook touches; the others are kept
together in its `rest`, so that "unchanged" covers them. An ephemeral
container is a `Container` here: its common part has the same fields, and
the container it targets is in `rest`.
-/
import Berth.Acquire.Config
import Berth.Operator.Types

namespace Berth.Webhook

open Berth.Lease Berth.Operator

/-! ## Contract -/

def labelInject : String := "berth.skaphos.io/inject"
def injectValueAcquire : String := "acquire"

def annLeaseName : String := "berth.skaphos.io/lease-name"
def annLeaseNamespace : String := "berth.skaphos.io/lease-namespace"
def annMode : String := "berth.skaphos.io/mode"
def annHolderIdentity : String := "berth.skaphos.io/holder-identity"
def annTTLSeconds : String := "berth.skaphos.io/ttl-seconds"
def annHeartbeatSeconds : String := "berth.skaphos.io/heartbeat-interval-seconds"
def annReleaseOnShutdown : String := "berth.skaphos.io/release-on-shutdown"
def annEnforce : String := "berth.skaphos.io/enforce"
def annEnforceGraceSeconds : String := "berth.skaphos.io/enforce-grace-seconds"
def annSignalTarget : String := "berth.skaphos.io/signal-target"
def annInjected : String := "berth.skaphos.io/injected"

def volumeName : String := "berth-state"
def initContainerName : String := "berth-acquire"
def sidecarContainerName : String := "berth-sidecar"
def authTokenVolume : String := "berth-auth-token"
def authCABundleVolume : String := "berth-auth-ca"

def subresourceEphemeralContainers : String := "ephemeralcontainers"

/-- `RejectReason`. -/
inductive RejectReason where
  | writableStateMount
  | writableStateMountEphemeral
  deriving DecidableEq, Repr

/-! ## Containers -/

/-- `corev1.PullPolicy`. -/
inductive PullPolicy where
  | unset
  | always
  | ifNotPresent
  | never
  | other (text : String)
  deriving DecidableEq, Repr

def PullPolicy.text : PullPolicy → String
  | .unset => ""
  | .always => "Always"
  | .ifNotPresent => "IfNotPresent"
  | .never => "Never"
  | .other text => text

/-- `corev1.ContainerRestartPolicy`. -/
inductive ContainerRestartPolicy where
  | always
  | other (text : String)
  deriving DecidableEq, Repr

/-- `corev1.VolumeMount`. -/
structure VolumeMount where
  name : String
  mountPath : String
  readOnly : Bool := false
  subPath : String := ""
  subPathExpr : String := ""
  rest : String := ""
  deriving DecidableEq, Repr

/-- `corev1.EnvVar`; `fieldRef` is the field path of its `ValueFrom`. -/
structure EnvVar where
  name : String
  value : String := ""
  fieldRef : Option String := none
  rest : String := ""
  deriving DecidableEq, Repr

/-- `corev1.Probe`; `exec` is the command of its handler. -/
structure Probe where
  exec : Option (List String) := none
  periodSeconds : Int := 0
  timeoutSeconds : Int := 0
  successThreshold : Int := 0
  failureThreshold : Int := 0
  terminationGracePeriodSeconds : Option Int := none
  rest : String := ""
  deriving DecidableEq, Repr

/-- `corev1.Container`. -/
structure Container where
  name : String
  image : String := ""
  imagePullPolicy : PullPolicy := .unset
  args : List String := []
  env : List EnvVar := []
  volumeMounts : List VolumeMount := []
  restartPolicy : Option ContainerRestartPolicy := none
  livenessProbe : Option Probe := none
  startupProbe : Option Probe := none
  rest : String := ""
  deriving DecidableEq, Repr

/-! ## Pods -/

/-- `corev1.KeyToPath`. -/
structure KeyToPath where
  key : String
  path : String
  deriving DecidableEq, Repr

/-- The source of a Secret's or a ConfigMap's volume. -/
structure KeySource where
  name : String
  items : List KeyToPath
  rest : String := ""
  deriving DecidableEq, Repr

/-- `corev1.Volume`; an `emptyDir` is the text of its options. -/
structure Volume where
  name : String
  emptyDir : Option String := none
  secret : Option KeySource := none
  configMap : Option KeySource := none
  rest : String := ""
  deriving DecidableEq, Repr

/-- `corev1.Pod`. -/
structure Pod where
  ns : String := ""
  labels : StringMap := ∅
  annotations : StringMap := ∅
  ownerReferences : List OwnerReference := []
  containers : List Container := []
  initContainers : List Container := []
  ephemeralContainers : List Container := []
  volumes : List Volume := []
  shareProcessNamespace : Option Bool := none
  rest : String := ""
  deriving DecidableEq

/-- The part of an `admission.Request` the webhook reads. -/
structure Request where
  ns : String
  subResource : String := ""
  deriving DecidableEq, Repr

/-- `hasVolume`. -/
def hasVolume (pod : Pod) (name : String) : Bool := pod.volumes.any (·.name == name)

/-- `hasContainerNamed`. -/
def hasContainerNamed (cs : List Container) (name : String) : Bool := cs.any (·.name == name)

/-- `containerHasMountAt`. -/
def containerHasMountAt (c : Container) (name path : String) : Bool :=
  c.volumeMounts.any fun m => m.name == name && m.mountPath == path

/-- `controllerOwner`. -/
def controllerOwner (pod : Pod) : Option OwnerReference :=
  pod.ownerReferences.find? fun o => o.controller == some true

/-- `orDefault`. -/
def orDefault (v d : String) : String := if v = "" then d else v

/-- The value of an annotation, empty when it is absent. -/
def Pod.ann (pod : Pod) (key : String) : String := (pod.annotations.lookup key).getD ""

/-- The Pod has opted in. -/
def Pod.optedIn (pod : Pod) : Bool :=
  (pod.labels.lookup labelInject).getD "" == injectValueAcquire

end Berth.Webhook
