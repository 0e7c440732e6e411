/-
Berth.Operator.Stamp — the mutating webhook on the JSON it gets
(`internal/operator/admission.go`, `stampBinding`).

`Berth.Operator.Admission` has the validating webhook on typed objects.
Stamping writes into the submitted JSON itself, so here an object is the
decoded map, and the checks that follow are on the map too. Writes are in
place in the source; a write that fails returns with the request denied, so
nothing of a half-stamped object is seen.
-/
import Berth.Json.Nested
import Berth.Operator.Admission

namespace Berth.Operator.Unstructured

open Berth.Json

/-- The errors of stamping and of the checks on a map. -/
inductive ObjectErr where
  | access (e : AccessErr)
  | new (text : String)

/-- An accessor's error is returned as it is. -/
def returnErr {α : Type} : Except AccessErr α → Except ObjectErr α
  | .ok a => .ok a
  | .error e => .error (.access e)

/-! ## Fields -/

/-- `GetKind`. -/
def getKind (obj : Fields) : String := getNestedString obj ["kind"]

/-- `GetAnnotations`. -/
def getAnnotations (obj : Fields) : List (String × String) :=
  getStringMap obj ["metadata", "annotations"]

/-- `SetAnnotations`. -/
def setAnnotations (obj : Fields) (a : List (String × String)) : Fields :=
  setStringMap obj a "metadata" ["annotations"]

/-- `GetLabels`. -/
def getLabels (obj : Fields) : List (String × String) := getStringMap obj ["metadata", "labels"]

/-- `SetLabels`. -/
def setLabels (obj : Fields) (a : List (String × String)) : Fields :=
  setStringMap obj a "metadata" ["labels"]

/-- `extractOwnerReference`. -/
def extractOwnerReference (v : Fields) : OwnerReference where
  apiVersion := getNestedString v ["apiVersion"]
  kind := getNestedString v ["kind"]
  name := getNestedString v ["name"]
  uid := getNestedString v ["uid"]
  controller := (nestedBool v ["controller"]).toOption.join
  blockOwnerDeletion := (nestedBool v ["blockOwnerDeletion"]).toOption.join

/-- `GetOwnerReferences`; nil unless the field is a list of objects. -/
def getOwnerReferences (obj : Fields) : Option (List OwnerReference) :=
  match nestedFieldNoCopy obj ["metadata", "ownerReferences"] with
  | .ok (some (.arr items)) =>
    items.mapM fun
      | .obj v => some (extractOwnerReference v)
      | _ => none
  | _ => none

/-! ## Stamping -/

/-- `bindingMetadata`. -/
def bindingMetadata (obj : Fields) (b : Binding) : Fields :=
  let obj := setAnnotations obj
    (put (put (getAnnotations obj) managedLease b.name) managedUID b.uid)
  setLabels obj (put (getLabels obj) managedUID b.uid)

/-- `podTemplatePath`; a Pod is its own template. -/
def podTemplatePath (kind : String) : Path :=
  if kind = "CronJob" then ["spec", "jobTemplate", "spec", "template"]
  else if kind = "Pod" then []
  else ["spec", "template"]

/-- `m["name"]` of an entry of `schedulingGates`, if it is a string. -/
def gateName : Value → Option String
  | .obj m =>
    match m.lookup "name" with
    | some (.str name) => some name
    | _ => none
  | _ => none

/-- The entry is the operator's gate. -/
def isGate (g : Value) : Bool := gateName g == some schedulingGate

/-- The gates with the operator's among them. -/
def addGate (gates : List Value) : List Value :=
  if gates.any isGate then gates else gates ++ [.obj [("name", .str schedulingGate)]]

/-- The part of `stampBinding` on the scheduling gates of a template. -/
def stampGates (template : Fields) : Except ObjectErr Fields := do
  let gates ← returnErr (nestedSlice template ["spec", "schedulingGates"])
  returnErr (setNestedField template (.arr (addGate (gates.getD []))) "spec" ["schedulingGates"])

/-- The part of `stampBinding` on the template at `k :: path`. -/
def stampTemplate (obj : Fields) (b : Binding) (k : String) (path : Path) :
    Except ObjectErr Fields := do
  match ← returnErr (nestedMap obj (k :: path)) with
  | none => throw (.new "managed workload requires a Pod template")
  | some raw =>
    let template ← stampGates (bindingMetadata raw b)
    returnErr (setNestedField obj (.obj template) k path)

/-- The part of `stampBinding` on the job template of a CronJob. -/
def stampJobTemplate (obj : Fields) (b : Binding) : Except ObjectErr Fields := do
  let raw ← returnErr (nestedMap obj ["spec", "jobTemplate"])
  returnErr (setNestedField obj (.obj (bindingMetadata (raw.getD []) b)) "spec" ["jobTemplate"])

/-- The part of `stampBinding` on the Pod template, or on the Pod. -/
def stampPods (obj : Fields) (b : Binding) : Except ObjectErr Fields :=
  match podTemplatePath (getKind obj) with
  | [] => stampGates obj
  | k :: path => stampTemplate obj b k path

/-- `stampBinding`. -/
def stampBinding (obj : Fields) (b : Binding) : Except ObjectErr Fields := do
  let obj ← stampPods (bindingMetadata obj b) b
  if getKind obj = "CronJob" then stampJobTemplate obj b else return obj

/-! ## Checks -/

/-- `gateOn`. -/
def gateOn (obj : Fields) : Bool :=
  match nestedSlice obj ["spec", "schedulingGates"] with
  | .ok (some gates) => gates.any isGate
  | _ => false

/-- The value of a key, empty if there is none. -/
def valueOf (m : List (String × String)) (k : String) : String := (m.lookup k).getD ""

/-- `validateMetadata`. -/
def validateMetadata (obj : Fields) (b : Binding) : Option ObjectErr :=
  if valueOf (getAnnotations obj) managedLease ≠ b.name ∨
      valueOf (getAnnotations obj) managedUID ≠ b.uid ∨
      valueOf (getLabels obj) managedUID ≠ b.uid then
    some (.new "managed workload binding cannot be removed or changed")
  else none

/-- The part of `validateManagedObject` that depends on whether the object
is a Pod that already exists. -/
def validateGate (obj : Fields) (old : Option Fields) (template : Fields) (operator : Bool) :
    Option ObjectErr :=
  match getKind obj == "Pod", old with
  | true, some old =>
    if getOwnerReferences old ≠ getOwnerReferences obj then
      some (.new "managed Pod owner identity is immutable")
    else if getNestedString old ["spec", "nodeName"] ≠
        getNestedString template ["spec", "nodeName"] then
      some (.new "managed Pods must use the binding subresource")
    else if gateOn old && !gateOn obj && !operator then
      some (.new "only the operator may remove the Berth scheduling gate")
    else none
  | _, _ =>
    if !gateOn template then
      some (.new "managed Pod must be created with the Berth scheduling gate")
    else none

/-- The job template as the checks read it. -/
def jobTemplate (obj : Fields) : Fields :=
  match nestedMap obj ["spec", "jobTemplate"] with
  | .ok (some raw) => raw
  | _ => []

/-- `validateManagedObject` from the check of the node name on. -/
def validateTemplate (obj : Fields) (old : Option Fields) (template : Fields) (b : Binding)
    (operator : Bool) : Option ObjectErr :=
  if getNestedString template ["spec", "nodeName"] ≠ "" ∧ (getKind obj ≠ "Pod" ∨ old.isNone) then
    some (.new "managed Pods cannot be prebound using nodeName")
  else
    match validateGate obj old template operator with
    | some e => some e
    | none => if getKind obj = "CronJob" then validateMetadata (jobTemplate obj) b else none

/-- `validateManagedObject`. -/
def validateManagedObject (obj : Fields) (old : Option Fields) (b : Binding) (operator : Bool) :
    Option ObjectErr :=
  match validateMetadata obj b with
  | some e => some e
  | none =>
    match podTemplatePath (getKind obj) with
    | [] => validateTemplate obj old obj b operator
    | path =>
      match nestedMap obj path with
      | .error e => some (.access e)
      | .ok none => some (.new "missing managed Pod template")
      | .ok (some raw) =>
        match validateMetadata raw b with
        | some e => some e
        | none => validateTemplate obj old raw b operator

end Berth.Operator.Unstructured
