/-
Berth.Operator.StampTheorems — stamped objects pass validation.

Stamping writes at a few paths of the submitted object: the binding into
the metadata of the object, of its Pod template and of a CronJob's job
template, and the gate into the template's `schedulingGates`
(`stampedPaths`). `Complete` says what stands there afterwards. A complete
object is left alone by stamping and passes the checks, and everything off
those paths is as it was submitted (`stamped_passes`).

The setters of annotations and labels drop their error, so this needs
metadata that can be written: absent, or an object whose annotations and
labels are maps of strings (`StringMaps`). Metadata of another type is left
without a binding, and the checks refuse it (`unwritable_refused`).
-/
import Berth.Operator.Stamp

namespace Berth.Operator.Unstructured

open Berth.Checks Berth.Json Value

variable {fs fs' : Fields} {b : Binding} {level path : Path} {gates : List Value}

/-! ## Metadata -/

/-- The metadata at a level can be read and written: there is none, or it is
an object whose annotations and labels are string maps. -/
structure StringMaps (fs : Fields) (level : Path) : Prop where
  object : ∀ v, (obj fs).at? (level ++ ["metadata"]) = some v → ∃ ms, v = .obj ms
  annotations : IsStringMap ((obj fs).at? (level ++ ["metadata", "annotations"]))
  labels : IsStringMap ((obj fs).at? (level ++ ["metadata", "labels"]))

/-- The binding stands in the metadata. -/
structure Bears (b : Binding) (fs : Fields) : Prop where
  annotations : ∃ m, (obj fs).at? ["metadata", "annotations"] = some (.obj (ofStrings m)) ∧
    m.lookup managedLease = some b.name ∧ m.lookup managedUID = some b.uid
  labels : ∃ m, (obj fs).at? ["metadata", "labels"] = some (.obj (ofStrings m)) ∧
    m.lookup managedUID = some b.uid

/-- Where `bindingMetadata` writes. -/
def metadataPaths : List Path :=
  [["metadata", "annotations", managedLease], ["metadata", "annotations", managedUID],
    ["metadata", "labels", managedUID]]

theorem StringMaps.congr (h : StringMaps fs level)
    (hsame : ∀ q,
      (obj fs').at? (level ++ "metadata" :: q) = (obj fs).at? (level ++ "metadata" :: q)) :
    StringMaps fs' level := by
  constructor
  · rw [hsame]
    exact h.object
  · rw [hsame]
    exact h.annotations
  · rw [hsame]
    exact h.labels

/-- The metadata at a level is that of the object there. -/
theorem StringMaps.at {t : Fields} (h : StringMaps fs level)
    (hat : (obj fs).at? level = some (.obj t)) : StringMaps t [] := by
  obtain ⟨hobj, hann, hlab⟩ := h
  rw [at?_append_of hat] at hobj hann hlab
  exact ⟨hobj, hann, hlab⟩

theorem Bears.congr (h : Bears b fs)
    (hsame : ∀ q, (obj fs').at? ("metadata" :: q) = (obj fs).at? ("metadata" :: q)) :
    Bears b fs' := by
  obtain ⟨hann, hlab⟩ := h
  rw [← hsame] at hann hlab
  exact ⟨hann, hlab⟩

theorem bindingMetadata_diverges {q : Path} (hann : Diverges ["metadata", "annotations"] q)
    (hlab : Diverges ["metadata", "labels"] q) :
    (obj (bindingMetadata fs b)).at? q = (obj fs).at? q :=
  (setStringMap_diverges hlab).trans (setStringMap_diverges hann)

/-- Stamping the metadata changes nothing else of the object. -/
theorem bindingMetadata_other {k : String} (h : k ≠ "metadata") (q : Path) :
    (obj (bindingMetadata fs b)).at? (k :: q) = (obj fs).at? (k :: q) :=
  bindingMetadata_diverges (diverges_of_head_ne h.symm _ _) (diverges_of_head_ne h.symm _ _)

theorem managedLease_ne_managedUID : managedLease ≠ managedUID := by decide

/-- What `bindingMetadata` does to metadata that can be written. -/
theorem bindingMetadata_writes (h : StringMaps fs []) : Bears b (bindingMetadata fs b) ∧
    AgreeOff metadataPaths (some (.obj fs)) (some (.obj (bindingMetadata fs b))) := by
  obtain ⟨hobj, hann, hlab⟩ := h
  let a := put (put (getAnnotations fs) managedLease b.name) managedUID b.uid
  let fs₁ := setAnnotations fs a
  obtain ⟨hread, hagree⟩ := setStringMap_pair a [managedLease, managedUID]
    (fun u hu => hobj u (by simp [at?_cons, hu])) hann (by simp) (by
      intro j hj
      simp only [List.mem_cons, List.not_mem_nil, or_false, not_or] at hj
      rw [lookup_put_ne hj.2, lookup_put_ne hj.1]
      rfl)
  -- the metadata is an object now, with the labels it had
  have hobj₁ : ∀ u, fs₁.lookup "metadata" = some u → ∃ ms, u = .obj ms := by
    intro u hu
    have hbelow : (fs₁.lookup "metadata").bind (·.at? ["annotations"]) =
        some (.obj (ofStrings a)) := (at?_cons _ _ _).symm.trans hread
    rw [hu] at hbelow
    exact object_of_at? hbelow
  have hlab₁ : IsStringMap ((obj fs₁).at? ["metadata", "labels"]) := by
    have hsame : (obj fs₁).at? ["metadata", "labels"] = (obj fs).at? ["metadata", "labels"] :=
      setStringMap_diverges (by simp [Diverges])
    rw [hsame]
    exact hlab
  obtain ⟨hread₁, hagree₁⟩ := setStringMap_pair (put (getLabels fs₁) managedUID b.uid) [managedUID]
    hobj₁ hlab₁ (by simp) (by
      intro j hj
      rw [lookup_put_ne (by simpa using hj)]
      rfl)
  refine ⟨⟨⟨a, ?_, ?_, lookup_put_self⟩, ⟨_, hread₁, lookup_put_self⟩⟩, ?_⟩
  · exact (setStringMap_diverges (by simp [Diverges])).trans hread
  · rw [lookup_put_ne managedLease_ne_managedUID, lookup_put_self]
  · exact (hagree.mono (by simp [metadataPaths])).trans (hagree₁.mono (by simp [metadataPaths]))

/-- Metadata that bears the binding is left as it is. -/
theorem Bears.bindingMetadata_eq (h : Bears b fs) : bindingMetadata fs b = fs := by
  obtain ⟨⟨a, hann, hlease, huid⟩, ⟨l, hlab, hlabel⟩⟩ := h
  have hann' : setAnnotations fs
      (put (put (getAnnotations fs) managedLease b.name) managedUID b.uid) = fs := by
    rw [getAnnotations, getStringMap_ofStrings hann, put_of_lookup hlease, put_of_lookup huid,
      setAnnotations, setStringMap, setNestedField, setFrom_same hann]
  rw [bindingMetadata, hann', getLabels, getStringMap_ofStrings hlab, put_of_lookup hlabel,
    setLabels, setStringMap, setNestedField, setFrom_same hlab]

theorem Bears.validateMetadata_eq (h : Bears b fs) : validateMetadata fs b = none := by
  obtain ⟨⟨a, hann, hlease, huid⟩, ⟨l, hlab, hlabel⟩⟩ := h
  rw [validateMetadata, getAnnotations, getStringMap_ofStrings hann, getLabels,
    getStringMap_ofStrings hlab]
  simp [valueOf, hlease, huid, hlabel]

/-! ## Gates -/

abbrev gatesPath : Path := ["spec", "schedulingGates"]

/-- The scheduling gates that are listed there. -/
def Lists (v : Option Value) (gates : List Value) : Prop :=
  v = none ∧ gates = [] ∨ v = some (.arr gates)

theorem any_addGate (gates : List Value) : (addGate gates).any isGate = true := by
  rw [addGate]
  split
  · assumption
  · simp [isGate, gateName]

theorem addGate_addGate (gates : List Value) : addGate (addGate gates) = addGate gates := by
  rw [addGate, if_pos (any_addGate gates)]

/-- At most one gate is added, at the end. -/
theorem addGate_eq (gates : List Value) : addGate gates = gates ∨
    addGate gates = gates ++ [.obj [("name", .str schedulingGate)]] := by
  rw [addGate]
  split
  · exact .inl rfl
  · exact .inr rfl

theorem returnErr_eq_ok {α : Type} {x : Except AccessErr α} {a : α} :
    returnErr x = .ok a ↔ x = .ok a := by
  cases x <;> simp [returnErr]

theorem stampGates_ok (h : stampGates fs = .ok fs') : ∃ gates,
    Lists ((obj fs).at? gatesPath) gates ∧
    setNestedField fs (.arr (addGate gates)) "spec" ["schedulingGates"] = .ok fs' := by
  obtain ⟨r, hread, hset⟩ := bind_eq_ok.mp h
  rw [returnErr_eq_ok] at hread hset
  refine ⟨r.getD [], ?_, hset⟩
  cases r with
  | none => exact .inl ⟨nestedAs_none hread, rfl⟩
  | some gates => exact .inr (nestedSlice_some_iff.mp hread)

theorem stampGates_same (h : (obj fs).at? gatesPath = some (.arr (addGate gates))) :
    stampGates fs = .ok fs := by
  refine bind_eq_ok.mpr ⟨some (addGate gates), returnErr_eq_ok.mpr (nestedSlice_some_iff.mpr h), ?_⟩
  rw [returnErr_eq_ok, Option.getD_some, addGate_addGate]
  exact setFrom_same h

theorem gateOn_of_addGate (h : (obj fs).at? gatesPath = some (.arr (addGate gates))) :
    gateOn fs = true := by
  rw [gateOn, nestedSlice_some_iff.mpr h]
  exact any_addGate gates

/-! ## Templates -/

/-- A Pod template with the binding and the gate. -/
structure Gated (b : Binding) (template : Fields) : Prop where
  bears : Bears b template
  gates : ∃ gates, (obj template).at? gatesPath = some (.arr (addGate gates))

/-- What stamping does to a Pod template, and to a Pod. -/
theorem stampGates_writes (hmeta : StringMaps fs [])
    (h : stampGates (bindingMetadata fs b) = .ok fs') : Gated b fs' ∧
    (∃ gates, Lists ((obj fs).at? gatesPath) gates ∧
      (obj fs').at? gatesPath = some (.arr (addGate gates))) ∧
    AgreeOff (metadataPaths ++ [gatesPath]) (some (.obj fs)) (some (.obj fs')) := by
  obtain ⟨gates, hlist, hset⟩ := stampGates_ok h
  obtain ⟨hbears, hagree⟩ := bindingMetadata_writes (b := b) hmeta
  rw [bindingMetadata_other (by decide)] at hlist
  refine ⟨⟨?_, gates, setFrom_at hset⟩, ⟨gates, hlist, setFrom_at hset⟩, ?_⟩
  · exact hbears.congr fun q => setFrom_diverges hset (diverges_of_head_ne (by decide) _ _)
  · refine (hagree.mono (by simp)).trans ?_
    refine (setFrom_agreeOff [[]] hset (by simp) ?_).mono (by simp)
    intro q hq
    exact absurd List.nil_prefix (hq [] (by simp)).1

theorem Gated.same (h : Gated b fs) : stampGates (bindingMetadata fs b) = .ok fs := by
  obtain ⟨gates, hgates⟩ := h.gates
  rw [h.bears.bindingMetadata_eq]
  exact stampGates_same hgates

theorem stampTemplate_ok {k : String} (h : stampTemplate fs b k path = .ok fs') :
    ∃ raw template, (obj fs).at? (k :: path) = some (.obj raw) ∧
      stampGates (bindingMetadata raw b) = .ok template ∧
      setNestedField fs (.obj template) k path = .ok fs' := by
  obtain ⟨r, hread, h₁⟩ := bind_eq_ok.mp h
  rw [returnErr_eq_ok] at hread
  cases r with
  | none => cases h₁
  | some raw =>
    obtain ⟨template, hstamp, hset⟩ := bind_eq_ok.mp h₁
    exact ⟨raw, template, nestedMap_some_iff.mp hread, hstamp, returnErr_eq_ok.mp hset⟩

theorem stampTemplate_same {k : String} {template : Fields}
    (hat : (obj fs).at? (k :: path) = some (.obj template)) (h : Gated b template) :
    stampTemplate fs b k path = .ok fs := by
  refine bind_eq_ok.mpr ⟨some template, returnErr_eq_ok.mpr (nestedMap_some_iff.mpr hat), ?_⟩
  refine bind_eq_ok.mpr ⟨template, h.same, ?_⟩
  exact returnErr_eq_ok.mpr (setFrom_same hat)

/-- What stamping does to an object with a template at `k :: path`. -/
theorem stampTemplate_writes {k : String} (hmeta : StringMaps fs (k :: path))
    (h : stampTemplate fs b k path = .ok fs') :
    (∃ template, (obj fs').at? (k :: path) = some (.obj template) ∧ Gated b template) ∧
    (∃ gates, Lists ((obj fs).at? (k :: path ++ gatesPath)) gates ∧
      (obj fs').at? (k :: path ++ gatesPath) = some (.arr (addGate gates))) ∧
    AgreeOff ((metadataPaths ++ [gatesPath]).map ((k :: path) ++ ·))
      (some (.obj fs)) (some (.obj fs')) ∧
    ∀ q, Diverges (k :: path) q → (obj fs').at? q = (obj fs).at? q := by
  obtain ⟨raw, template, hraw, hstamp, hset⟩ := stampTemplate_ok h
  obtain ⟨hgated, ⟨gates, hlist, hgates⟩, hagree⟩ := stampGates_writes (hmeta.at hraw) hstamp
  have hat := setFrom_at hset
  refine ⟨⟨template, hat, hgated⟩, ⟨gates, ?_, ?_⟩, ?_, fun q hq => setFrom_diverges hset hq⟩
  · rwa [at?_append_of hraw]
  · rwa [at?_append_of hat]
  · rw [← hraw] at hagree
    exact setFrom_agreeOff _ hset (by simp) hagree

theorem stampJobTemplate_ok {raw : Fields}
    (hat : (obj fs).at? ["spec", "jobTemplate"] = some (.obj raw))
    (h : stampJobTemplate fs b = .ok fs') :
    setNestedField fs (.obj (bindingMetadata raw b)) "spec" ["jobTemplate"] = .ok fs' := by
  obtain ⟨r, hread, hset⟩ := bind_eq_ok.mp h
  rw [nestedMap_some_iff.mpr hat] at hread
  cases hread
  exact returnErr_eq_ok.mp hset

theorem stampJobTemplate_same {job : Fields}
    (hat : (obj fs).at? ["spec", "jobTemplate"] = some (.obj job)) (h : Bears b job) :
    stampJobTemplate fs b = .ok fs := by
  refine bind_eq_ok.mpr ⟨some job, returnErr_eq_ok.mpr (nestedMap_some_iff.mpr hat), ?_⟩
  rw [returnErr_eq_ok, Option.getD_some, h.bindingMetadata_eq]
  exact setFrom_same hat

/-! ## Objects -/

/-- The levels of an object whose metadata is stamped. -/
def levels (kind : String) : List Path :=
  [[], podTemplatePath kind] ++ if kind = "CronJob" then [["spec", "jobTemplate"]] else []

/-- Where the gates of an object are listed. -/
def gatesOf (kind : String) : Path := podTemplatePath kind ++ gatesPath

/-- The metadata paths of some levels, and the gates. -/
def pathsAt (levels : List Path) (kind : String) : List Path :=
  levels.flatMap (fun level => metadataPaths.map (level ++ ·)) ++ [gatesOf kind]

/-- Where `stampBinding` writes. -/
def stampedPaths (kind : String) : List Path := pathsAt (levels kind) kind

theorem pathsAt_subset {ls ls' : List Path} (h : ls ⊆ ls') (kind : String) :
    pathsAt ls kind ⊆ pathsAt ls' kind := by
  intro p hp
  simp only [pathsAt, List.mem_append, List.mem_flatMap] at hp ⊢
  obtain ⟨l, hl, hmem⟩ | hmem := hp
  · exact .inl ⟨l, h hl, hmem⟩
  · exact .inr hmem

theorem metadataPaths_subset {ls : List Path} {l : Path} (h : l ∈ ls) (kind : String) :
    metadataPaths.map (l ++ ·) ⊆ pathsAt ls kind := by
  intro p hp
  simp only [pathsAt, List.mem_append, List.mem_flatMap]
  exact .inl ⟨l, h, hp⟩

/-- Everything that stamping puts into an object is there. -/
structure Complete (b : Binding) (fs : Fields) : Prop where
  bears : Bears b fs
  template : ∃ template,
    (obj fs).at? (podTemplatePath (getKind fs)) = some (.obj template) ∧ Gated b template
  job : getKind fs = "CronJob" →
    ∃ job, (obj fs).at? ["spec", "jobTemplate"] = some (.obj job) ∧ Bears b job

theorem getKind_congr (h : (obj fs').at? ["kind"] = (obj fs).at? ["kind"]) :
    getKind fs' = getKind fs := by
  rw [getKind, getKind, getNestedString_eq, getNestedString_eq, h]

theorem getKind_bindingMetadata : getKind (bindingMetadata fs b) = getKind fs :=
  getKind_congr (bindingMetadata_other (by decide) [])

/-- A complete object is left as it is. -/
theorem Complete.same (h : Complete b fs) : stampBinding fs b = .ok fs := by
  obtain ⟨template, hat, hgated⟩ := h.template
  rw [stampBinding, h.bears.bindingMetadata_eq]
  refine bind_eq_ok.mpr ⟨fs, ?_, ?_⟩
  · rw [stampPods]
    cases hpath : podTemplatePath (getKind fs) with
    | nil =>
      rw [hpath, at?_nil] at hat
      cases hat
      obtain ⟨gates, hgates⟩ := hgated.gates
      exact stampGates_same hgates
    | cons k path =>
      rw [hpath] at hat
      exact stampTemplate_same hat hgated
  · split
    · next hkind =>
      obtain ⟨job, hjob, hbears⟩ := h.job hkind
      exact stampJobTemplate_same hjob hbears
    · rfl

/-- A complete object passes the checks of a CREATE. -/
theorem Complete.passes (h : Complete b fs)
    (hnode : stringOf ((obj fs).at? (podTemplatePath (getKind fs) ++ ["spec", "nodeName"])) = "")
    (operator : Bool) : validateManagedObject fs none b operator = none := by
  obtain ⟨template, hat, hbears, gates, hgates⟩ := h.template
  have htemplate : validateTemplate fs none template b operator = none := by
    have hgate : validateGate fs none template operator = none := by
      simp [validateGate, gateOn_of_addGate hgates]
    rw [at?_append_of hat, ← getNestedString_eq] at hnode
    rw [validateTemplate, if_neg (by simp [hnode]), hgate]
    dsimp only
    split
    · next hkind =>
      obtain ⟨job, hjob, hbears⟩ := h.job hkind
      rw [jobTemplate, nestedMap_some_iff.mpr hjob]
      exact hbears.validateMetadata_eq
    · rfl
  rw [validateManagedObject, h.bears.validateMetadata_eq]
  cases hpath : podTemplatePath (getKind fs) with
  | nil =>
    rw [hpath, at?_nil] at hat
    cases hat
    exact htemplate
  | cons k path =>
    rw [hpath] at hat
    simp only [nestedMap_some_iff.mpr hat, hbears.validateMetadata_eq, htemplate]

theorem podTemplatePath_cases (kind : String) :
    kind = "Pod" ∨ ∃ path, podTemplatePath kind = "spec" :: path := by
  rw [podTemplatePath]
  split
  · exact .inr ⟨_, rfl⟩
  · split
    · next hpod => exact .inl hpod
    · exact .inr ⟨_, rfl⟩

/-- What `stampPods` makes of an object. -/
structure PodsStamped (b : Binding) (fs fs' : Fields) : Prop where
  bears : Bears b fs'
  template : ∃ template,
    (obj fs').at? (podTemplatePath (getKind fs)) = some (.obj template) ∧ Gated b template
  gates : ∃ gates, Lists ((obj fs).at? (gatesOf (getKind fs))) gates ∧
    (obj fs').at? (gatesOf (getKind fs)) = some (.arr (addGate gates))
  agree : AgreeOff (pathsAt [[], podTemplatePath (getKind fs)] (getKind fs))
    (some (.obj fs)) (some (.obj fs'))

theorem stampPods_pod (hkind : getKind fs = "Pod") (hmeta : StringMaps fs [])
    (h : stampPods (bindingMetadata fs b) b = .ok fs') : PodsStamped b fs fs' := by
  have hpath : podTemplatePath (getKind fs) = [] := by rw [hkind]; rfl
  rw [stampPods, getKind_bindingMetadata, hpath] at h
  obtain ⟨hgated, hgates, hagree⟩ := stampGates_writes hmeta h
  refine ⟨hgated.bears, ⟨fs', ?_, hgated⟩, ?_, ?_⟩
  · rw [hpath, at?_nil]
  · rw [gatesOf, hpath]
    exact hgates
  · rw [pathsAt, gatesOf, hpath]
    exact hagree.mono (by simp)

theorem stampPods_template (hpath : podTemplatePath (getKind fs) = "spec" :: path)
    (hobject : StringMaps fs []) (htemplate : StringMaps fs ("spec" :: path))
    (h : stampPods (bindingMetadata fs b) b = .ok fs') : PodsStamped b fs fs' := by
  rw [stampPods, getKind_bindingMetadata, hpath] at h
  obtain ⟨hbears, hagree⟩ := bindingMetadata_writes (b := b) hobject
  obtain ⟨hat, hgates, hagree', hrest⟩ :=
    stampTemplate_writes (htemplate.congr fun q => bindingMetadata_other (by decide) _) h
  refine ⟨?_, ?_, ?_, ?_⟩
  · exact hbears.congr fun q => hrest _ (diverges_of_head_ne (by decide) _ _)
  · rw [hpath]
    exact hat
  · rw [gatesOf, hpath]
    rwa [List.cons_append, bindingMetadata_other (by decide)] at hgates
  · rw [pathsAt, gatesOf, hpath]
    exact (hagree.mono (by simp)).trans (hagree'.mono (by simp))

theorem stampPods_writes (hmeta : ∀ level ∈ levels (getKind fs), StringMaps fs level)
    (h : stampPods (bindingMetadata fs b) b = .ok fs') : PodsStamped b fs fs' := by
  have hobject : StringMaps fs [] := hmeta [] (by simp [levels])
  obtain hkind | ⟨path, hpath⟩ := podTemplatePath_cases (getKind fs)
  · exact stampPods_pod hkind hobject h
  · refine stampPods_template hpath hobject (hmeta _ ?_) h
    simp [levels, hpath]

/-- No stamped path leads to or from the kind and the node name. -/
theorem stampedPaths_diverge (kind : String) : ∀ p ∈ stampedPaths kind,
    Diverges p ["kind"] ∧ Diverges p (podTemplatePath kind ++ ["spec", "nodeName"]) := by
  by_cases hcron : kind = "CronJob"
  · simp [stampedPaths, pathsAt, levels, gatesOf, podTemplatePath, metadataPaths, Diverges, hcron]
  by_cases hpod : kind = "Pod"
  · simp [stampedPaths, pathsAt, levels, gatesOf, podTemplatePath, metadataPaths, Diverges, hpod]
  · simp [stampedPaths, pathsAt, levels, gatesOf, podTemplatePath, metadataPaths, Diverges, hcron,
      hpod]

/-- What `stampJobTemplate` does after `stampPods`. -/
theorem stampJobTemplate_writes {fs₁ : Fields} (hkind : getKind fs = "CronJob")
    (hmeta : StringMaps fs ["spec", "jobTemplate"]) (hpods : PodsStamped b fs fs₁)
    (h : stampJobTemplate fs₁ b = .ok fs') :
    (∃ job, (obj fs').at? ["spec", "jobTemplate"] = some (.obj job) ∧ Bears b job) ∧
    (obj fs').at? (podTemplatePath "CronJob") = (obj fs₁).at? (podTemplatePath "CronJob") ∧
    AgreeOff (metadataPaths.map (["spec", "jobTemplate"] ++ ·))
      (some (.obj fs₁)) (some (.obj fs')) ∧
    ∀ q, Diverges ["spec", "jobTemplate"] q → (obj fs').at? q = (obj fs₁).at? q := by
  obtain ⟨⟨template, hat, hgated⟩, hagree⟩ := And.intro hpods.template hpods.agree
  rw [hkind] at hat hagree
  -- the job template is there, because the Pod template is
  have hbelow : ((obj fs₁).at? ["spec", "jobTemplate"]).bind (·.at? ["spec", "template"]) =
      some (.obj template) := (at?_append _ ["spec", "jobTemplate"] _).symm.trans hat
  obtain ⟨v, hv, hin⟩ := Option.bind_eq_some_iff.mp hbelow
  obtain ⟨raw, rfl⟩ := object_of_at? hin
  have hset := stampJobTemplate_ok hv h
  have hraw : StringMaps raw [] := by
    refine (hmeta.congr fun q => hagree.at? ?_).at hv
    simp [pathsAt, metadataPaths, gatesOf, podTemplatePath, Diverges]
  obtain ⟨hbears, hagree₁⟩ := bindingMetadata_writes (b := b) hraw
  refine ⟨⟨_, setFrom_at hset, hbears⟩, ?_, ?_, fun q hq => setFrom_diverges hset hq⟩
  · have hnew : (obj fs').at? (["spec", "jobTemplate"] ++ ["spec", "template"]) =
        some (.obj template) := by
      rw [at?_append_of (setFrom_at hset), bindingMetadata_other (by decide), hin]
    exact hnew.trans hat.symm
  · rw [← hv] at hagree₁
    exact setFrom_agreeOff _ hset (by simp [metadataPaths]) hagree₁

/-- What `stampBinding` makes of an object. -/
theorem stampBinding_writes (hmeta : ∀ level ∈ levels (getKind fs), StringMaps fs level)
    (h : stampBinding fs b = .ok fs') : Complete b fs' ∧
    AgreeOff (stampedPaths (getKind fs)) (some (.obj fs)) (some (.obj fs')) ∧
    ∃ gates, Lists ((obj fs).at? (gatesOf (getKind fs))) gates ∧
      (obj fs').at? (gatesOf (getKind fs)) = some (.arr (addGate gates)) := by
  obtain ⟨fs₁, hpods, h₁⟩ := bind_eq_ok.mp h
  have hstamped := stampPods_writes hmeta hpods
  have hagree : AgreeOff (stampedPaths (getKind fs)) (some (.obj fs)) (some (.obj fs₁)) :=
    hstamped.agree.mono (pathsAt_subset (by simp [levels]) _)
  have hkind₁ : getKind fs₁ = getKind fs :=
    getKind_congr (hagree.at? fun p hp => (stampedPaths_diverge _ p hp).1)
  rw [hkind₁] at h₁
  split at h₁
  · next hcron =>
    have hlevel : ["spec", "jobTemplate"] ∈ levels (getKind fs) := by simp [levels, hcron]
    obtain ⟨hjob, htemplate, hagree₁, hrest⟩ :=
      stampJobTemplate_writes hcron (hmeta _ hlevel) hstamped h₁
    rw [← hcron] at htemplate
    have hall := hagree.trans (hagree₁.mono (metadataPaths_subset hlevel _))
    have hkind' : getKind fs' = getKind fs :=
      getKind_congr (hall.at? fun p hp => (stampedPaths_diverge _ p hp).1)
    refine ⟨⟨?_, ?_, fun _ => hjob⟩, hall, ?_⟩
    · exact hstamped.bears.congr fun q => hrest _ (diverges_of_head_ne (by decide) _ _)
    · rw [hkind', htemplate]
      exact hstamped.template
    · rw [gatesOf, at?_append (obj fs'), htemplate, ← at?_append]
      exact hstamped.gates
  · next hcron =>
    cases h₁
    refine ⟨⟨hstamped.bears, ?_, ?_⟩, hagree, hstamped.gates⟩
    · rw [hkind₁]
      exact hstamped.template
    · rw [hkind₁]
      exact fun hkind => absurd hkind hcron

/-- Stamped objects pass validation. If an object whose annotations and
labels are string maps and whose Pod spec names no node has been stamped,
then the checks of a CREATE accept the result, for any user. Stamping it
again changes nothing. And it is what was submitted, but for the managed
annotations and the label of each level and at most one gate at the end. -/
theorem stamped_passes (b : Binding) (fs fs' : Fields)
    (hmeta : ∀ level ∈ levels (getKind fs), StringMaps fs level)
    (hnode : stringOf ((obj fs).at? (podTemplatePath (getKind fs) ++ ["spec", "nodeName"])) = "")
    (h : stampBinding fs b = .ok fs') :
    (∀ operator, validateManagedObject fs' none b operator = none) ∧
    stampBinding fs' b = .ok fs' ∧
    AgreeOff (stampedPaths (getKind fs)) (some (.obj fs)) (some (.obj fs')) ∧
    ∃ gates added, Lists ((obj fs).at? (gatesOf (getKind fs))) gates ∧
      (obj fs').at? (gatesOf (getKind fs)) = some (.arr (gates ++ added)) ∧
      (added = [] ∨ added = [.obj [("name", .str schedulingGate)]]) := by
  obtain ⟨hcomplete, hagree, gates, hlist, hgates⟩ := stampBinding_writes hmeta h
  have hkind : getKind fs' = getKind fs :=
    getKind_congr (hagree.at? fun p hp => (stampedPaths_diverge _ p hp).1)
  refine ⟨hcomplete.passes ?_, hcomplete.same, hagree, gates, ?_⟩
  · rw [hkind, hagree.at? fun p hp => (stampedPaths_diverge _ p hp).2]
    exact hnode
  · obtain heq | heq := addGate_eq gates
    · exact ⟨[], hlist, by rw [hgates, heq, List.append_nil], .inl rfl⟩
    · exact ⟨_, hlist, by rw [hgates, heq], .inr rfl⟩

/-- A CronJob as it is submitted. -/
def submitted : Fields :=
  [("kind", .str "CronJob"), ("metadata", .obj [("name", .str "nightly")]),
   ("spec", .obj [("jobTemplate", .obj [("spec", .obj [("template", .obj
     [("spec", .obj [("schedulingGates", .arr [.obj [("name", .str "quota")]])])])])])])]

theorem submitted_maps : ∀ level ∈ levels (getKind submitted), StringMaps submitted level := by
  have hkind : getKind submitted = "CronJob" := by decide
  rw [hkind]
  intro level hlevel
  simp only [levels, podTemplatePath, if_pos, List.cons_append, List.nil_append, List.mem_cons,
    List.not_mem_nil, or_false] at hlevel
  obtain rfl | rfl | rfl := hlevel <;>
    constructor <;> simp [submitted, at?_cons, lookup_cons_ite, IsStringMap]

theorem stamped_passes_cron : ∃ fs', stampBinding submitted ⟨"nightly", "lease-1", ""⟩ = .ok fs' ∧
    ∀ operator, validateManagedObject fs' none ⟨"nightly", "lease-1", ""⟩ operator = none := by
  cases h : stampBinding submitted ⟨"nightly", "lease-1", ""⟩ with
  | error e =>
    have hok : (stampBinding submitted ⟨"nightly", "lease-1", ""⟩).isOk = true := by decide
    rw [h] at hok
    cases hok
  | ok fs' =>
    exact ⟨fs', rfl, (stamped_passes _ submitted fs' submitted_maps (by decide) h).1⟩

/-! ## Metadata that cannot be written -/

theorem stampPods_metadata (h : stampPods fs b = .ok fs') (q : Path) :
    (obj fs').at? ("metadata" :: q) = (obj fs).at? ("metadata" :: q) := by
  have hdiv : ∀ p, Diverges ("spec" :: p) ("metadata" :: q) :=
    fun p => diverges_of_head_ne (by decide) _ _
  rw [stampPods] at h
  obtain hkind | ⟨path, hpath⟩ := podTemplatePath_cases (getKind fs)
  · rw [hkind] at h
    obtain ⟨gates, -, hset⟩ := stampGates_ok h
    exact setFrom_diverges hset (hdiv _)
  · rw [hpath] at h
    obtain ⟨raw, template, -, -, hset⟩ := stampTemplate_ok h
    exact setFrom_diverges hset (hdiv _)

/-- Below the metadata of the object, only `bindingMetadata` writes. -/
theorem stampBinding_metadata (h : stampBinding fs b = .ok fs') (q : Path) :
    (obj fs').at? ("metadata" :: q) = (obj (bindingMetadata fs b)).at? ("metadata" :: q) := by
  obtain ⟨fs₁, hpods, h₁⟩ := bind_eq_ok.mp h
  rw [← stampPods_metadata hpods]
  split at h₁
  · obtain ⟨raw, -, hset⟩ := bind_eq_ok.mp h₁
    exact setFrom_diverges (returnErr_eq_ok.mp hset) (diverges_of_head_ne (by decide) _ _)
  · cases h₁
    rfl

/-- Metadata that is there and is no object is not stamped, without an
error, and the checks refuse the object. -/
theorem unwritable_refused {v : Value} (hv : (obj fs).at? ["metadata"] = some v)
    (hno : ∀ ms, v ≠ .obj ms) (huid : b.uid ≠ "") (h : stampBinding fs b = .ok fs')
    (old : Option Fields) (operator : Bool) : validateManagedObject fs' old b operator ≠ none := by
  have hlookup : fs.lookup "metadata" = some v := by simpa [at?_cons] using hv
  have hblocked : ∀ m k, setStringMap fs m "metadata" [k] = fs := by
    intro m k
    rw [setStringMap, setNestedField, setFrom, hlookup]
    cases v with
    | obj ms => exact absurd rfl (hno ms)
    | _ => rfl
  have hannotations : getAnnotations fs' = [] := by
    refine getStringMap_none ?_
    rw [stampBinding_metadata h, bindingMetadata, setAnnotations, hblocked, setLabels, hblocked,
      at?_cons, hlookup, Option.bind_some]
    cases hbelow : v.at? ["annotations"] with
    | none => rfl
    | some w =>
      obtain ⟨ms, hms⟩ := object_of_at? hbelow
      exact absurd hms (hno ms)
  rw [validateManagedObject, validateMetadata, hannotations]
  simp [valueOf, huid.symm]

end Berth.Operator.Unstructured
