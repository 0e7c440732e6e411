/-
Berth.Operator.StampView — the checks on JSON and on typed objects agree.

`view` is what the typed model of the validating webhook keeps of a decoded
map. A map is accepted by `Unstructured.validateManagedObject` if and only
if its view is accepted by `validateManagedObject`
(`validateManagedObject_view`), so what the typed model shows of accepted
objects holds of the JSON.

`reflect.DeepEqual` tells a nil list of owners from an empty one and the
typed model does not. The API server omits an empty list, so it is left out
here (`OwnersListed`).
-/
import Berth.Operator.StampTheorems

namespace Berth.Operator.Unstructured

open Berth.Lease Berth.Json Value

variable {fs : Fields} {b : Binding}

/-! ## Views -/

/-- A string map as the typed model has it. -/
def viewMap (m : List (String × String)) : StringMap :=
  (m.map fun f => (⟨f.1, f.2⟩ : Σ _ : String, String)).toAList

def viewMeta (fs : Fields) : Meta := ⟨viewMap (getAnnotations fs), viewMap (getLabels fs)⟩

def viewGates (fs : Fields) : List String :=
  match nestedSlice fs ["spec", "schedulingGates"] with
  | .ok (some gates) => gates.filterMap gateName
  | _ => []

def viewSpec (fs : Fields) : PodSpec := ⟨viewGates fs, getNestedString fs ["spec", "nodeName"]⟩

def viewTemplate (fs : Fields) : Option PodTemplate :=
  match nestedMap fs (podTemplatePath (getKind fs)) with
  | .ok (some raw) => some ⟨viewMeta raw, viewSpec raw⟩
  | _ => none

/-- What `validateManagedObject` reads of an object. -/
def view (fs : Fields) : Object where
  apiVersion := getNestedString fs ["apiVersion"]
  kind := getKind fs
  ns := getNestedString fs ["metadata", "namespace"]
  name := getNestedString fs ["metadata", "name"]
  uid := getNestedString fs ["metadata", "uid"]
  metadata := viewMeta fs
  ownerReferences := (getOwnerReferences fs).getD []
  pod := viewSpec fs
  template := viewTemplate fs
  jobTemplate := viewMeta (jobTemplate fs)

theorem lookup_viewMap (m : List (String × String)) (k : String) :
    (viewMap m).lookup k = m.lookup k := by
  rw [viewMap, AList.lookup_to_alist]
  induction m with
  | nil => rfl
  | cons f m ih =>
    rw [List.map_cons, lookup_cons_ite]
    split
    · next heq =>
      subst heq
      exact List.dlookup_cons_eq _ _ _
    · next hne => rw [List.dlookup_cons_ne _ _ hne, ih]

theorem validateMetadata_view : validateMetadata fs b = none ↔
    Operator.validateMetadata (viewMeta fs) b = none := by
  rw [validateMetadata, Operator.validateMetadata, ite_eq_right_iff, ite_eq_right_iff]
  simp only [viewMeta, Meta.annotation, Meta.label, lookup_viewMap, valueOf, reduceCtorEq]

theorem contains_gateNames (gates : List Value) :
    (gates.filterMap gateName).contains schedulingGate = gates.any isGate := by
  induction gates with
  | nil => rfl
  | cons g gates ih =>
    rw [List.any_cons, ← ih, isGate, List.filterMap_cons]
    cases gateName g with
    | none => rfl
    | some name =>
      have hname : (schedulingGate == name) = (some name == some schedulingGate) := by
        rw [Bool.eq_iff_iff, beq_iff_eq, beq_iff_eq, Option.some_inj]
        exact eq_comm
      dsimp only
      rw [List.contains_cons, hname]

theorem gateOn_view : (viewSpec fs).gateOn = gateOn fs := by
  rw [gateOn, PodSpec.gateOn, viewSpec, viewGates]
  generalize nestedSlice fs ["spec", "schedulingGates"] = r
  cases r with
  | error e => rfl
  | ok found =>
    cases found with
    | none => rfl
    | some gates => exact contains_gateNames gates

/-! ## Checks -/

/-- Two checks that accept the same also refuse the same. -/
theorem refused_of_iff {α β : Type} {x : Option α} {y : Option β} {a : α} (h : x = none ↔ y = none)
    (hx : x = some a) : ∃ c, y = some c := by
  rw [← Option.ne_none_iff_exists', Ne, ← h, hx]
  exact Option.some_ne_none a

/-- There is no list of owners, or one that is not empty. -/
def OwnersListed (fs : Fields) : Prop := getOwnerReferences fs ≠ some []

theorem getOwnerReferences_view {old : Fields} (hold : OwnersListed old) (hfs : OwnersListed fs) :
    getOwnerReferences old = getOwnerReferences fs ↔
      (view old).ownerReferences = (view fs).ownerReferences := by
  unfold OwnersListed at hold hfs
  simp only [view]
  generalize getOwnerReferences old = x at hold ⊢
  generalize getOwnerReferences fs = y at hfs ⊢
  cases x <;> cases y <;> simp_all

theorem validateGate_view {old : Option Fields} (hfs : OwnersListed fs)
    (hold : ∀ o, old = some o → OwnersListed o) (template : Fields) (operator : Bool) :
    validateGate fs old template operator = none ↔
      Operator.validateGate (view fs) (old.map view) (viewSpec template) operator = none := by
  unfold validateGate Operator.validateGate
  have hkind : (view fs).kind = getKind fs := rfl
  rw [hkind]
  cases hpod : getKind fs == "Pod" with
  | false => cases old <;> simp [gateOn_view]
  | true =>
    cases old with
    | none => simp [gateOn_view]
    | some o =>
      have howner := getOwnerReferences_view (hold o rfl) hfs
      have hgate : ∀ fs, (view fs).pod.gateOn = gateOn fs := fun fs => gateOn_view
      have hnode : ∀ fs, (view fs).pod.nodeName = getNestedString fs ["spec", "nodeName"] :=
        fun fs => rfl
      simp only [Option.map_some, hgate, hnode, viewSpec, ne_eq, ← howner]
      by_cases howners : getOwnerReferences o = getOwnerReferences fs
      · by_cases hnodes : getNestedString o ["spec", "nodeName"] =
            getNestedString template ["spec", "nodeName"]
        · simp [howners, hnodes]
        · simp [howners, hnodes]
      · simp [howners]

theorem validateTemplate_view {old : Option Fields} (hfs : OwnersListed fs)
    (hold : ∀ o, old = some o → OwnersListed o) (template : Fields) (operator : Bool) :
    validateTemplate fs old template b operator = none ↔
      Operator.validateTemplate (view fs) (old.map view) (viewSpec template) b operator = none := by
  have hgate := validateGate_view hfs hold template operator
  have hkind : (view fs).kind = getKind fs := rfl
  have hnode : (viewSpec template).nodeName = getNestedString template ["spec", "nodeName"] := rfl
  rw [validateTemplate, Operator.validateTemplate, hkind, hnode, Option.isNone_map]
  split
  · simp
  cases hg : validateGate fs old template operator with
  | some e =>
    obtain ⟨e', he'⟩ := refused_of_iff hgate hg
    simp [he']
  | none =>
    rw [hgate.mp hg]
    dsimp only
    split
    · exact validateMetadata_view
    · simp

/-- A map passes the checks if and only if its view does. -/
theorem validateManagedObject_view {old : Option Fields} (hfs : OwnersListed fs)
    (hold : ∀ o, old = some o → OwnersListed o) (operator : Bool) :
    validateManagedObject fs old b operator = none ↔
      Operator.validateManagedObject (view fs) (old.map view) b operator = none := by
  have hkind : (view fs).kind = getKind fs := rfl
  have hmeta : (view fs).metadata = viewMeta fs := rfl
  rw [validateManagedObject, Operator.validateManagedObject, hkind, hmeta]
  cases hm : validateMetadata fs b with
  | some e =>
    obtain ⟨e', he'⟩ := refused_of_iff validateMetadata_view hm
    simp [he']
  | none =>
    rw [validateMetadata_view.mp hm]
    dsimp only
    obtain hpod | ⟨path, hpath⟩ := podTemplatePath_cases (getKind fs)
    · rw [if_pos hpod, hpod]
      exact validateTemplate_view hfs hold fs operator
    have hpod : getKind fs ≠ "Pod" := by
      intro hpod
      rw [hpod] at hpath
      cases hpath
    have htemplate : (view fs).template = viewTemplate fs := rfl
    rw [if_neg hpod, hpath, htemplate, viewTemplate, hpath]
    dsimp only
    cases nestedMap fs ("spec" :: path) with
    | error e => simp
    | ok found =>
      cases found with
      | none => simp
      | some raw =>
        dsimp only
        cases hr : validateMetadata raw b with
        | some e =>
          obtain ⟨e', he'⟩ := refused_of_iff validateMetadata_view hr
          simp [he']
        | none =>
          rw [validateMetadata_view.mp hr]
          exact validateTemplate_view hfs hold raw operator

end Berth.Operator.Unstructured
