/-
Berth.Json.Nested — the nested accessors of the `unstructured` package.

`nestedFieldNoCopy` and `setNestedField` walk a path of keys. Reading stops
without an error at a field that is absent or null; writing creates absent
objects but does not replace what is no object. A failed write leaves the
object as it was, because it fails before it creates anything.

The laws below relate both to `Value.at?`: what is written is what is read
back, nothing else changes, and writing what is there changes nothing.
-/
import Berth.Checks.First
import Berth.Json.Value

namespace Berth.Json

open Berth.Checks Value

/-! ## Accessors -/

/-- The errors of the accessors, with the values their texts show. -/
inductive AccessErr where
  /-- `%v accessor error: %v is of the type %T, expected %s` -/
  | accessor (path : Path) (value : Value) (expected : String)
  /-- `%v accessor error: contains non-string value in the map under key %q: …` -/
  | nonString (path : Path) (key : String) (value : Value)
  /-- `value cannot be set because %v is not a map[string]interface{}` -/
  | notMap (path : Path)

/-- The loop of `NestedFieldNoCopy`, after the keys `done`. -/
def nestedFrom (v : Value) (done : Path) : Path → Except AccessErr (Option Value)
  | [] => .ok (some v)
  | k :: p =>
    match v with
    | .null => .ok none
    | .obj fs =>
      match fs.lookup k with
      | none => .ok none
      | some w => nestedFrom w (done ++ [k]) p
    | v => .error (.accessor (done ++ [k]) v "map[string]interface\x7b\x7d")

/-- `NestedFieldNoCopy`; no value if the field is not found. -/
def nestedFieldNoCopy (fs : Fields) (p : Path) : Except AccessErr (Option Value) :=
  nestedFrom (.obj fs) [] p

/-- A nested field of one type. -/
def nestedAs {α : Type} (expected : String) (as : Value → Option α) (fs : Fields) (p : Path) :
    Except AccessErr (Option α) := do
  match ← nestedFieldNoCopy fs p with
  | none => return none
  | some v =>
    match as v with
    | none => throw (.accessor p v expected)
    | some a => return some a

/-- `NestedString`. -/
def nestedString (fs : Fields) (p : Path) : Except AccessErr (Option String) :=
  nestedAs "string" (fun | .str s => some s | _ => none) fs p

/-- `NestedBool`. -/
def nestedBool (fs : Fields) (p : Path) : Except AccessErr (Option Bool) :=
  nestedAs "bool" (fun | .bool b => some b | _ => none) fs p

/-- `NestedSlice`. -/
def nestedSlice (fs : Fields) (p : Path) : Except AccessErr (Option (List Value)) :=
  nestedAs "[]interface\x7b\x7d" (fun | .arr vs => some vs | _ => none) fs p

/-- `NestedMap`. -/
def nestedMap (fs : Fields) (p : Path) : Except AccessErr (Option Fields) :=
  nestedAs "map[string]interface\x7b\x7d" (fun | .obj fs => some fs | _ => none) fs p

/-- The values of a map as strings; null counts as empty. -/
def coerceStrings (p : Path) : Fields → Except AccessErr (List (String × String))
  | [] => .ok []
  | (k, .str s) :: fs => return (k, s) :: (← coerceStrings p fs)
  | (k, .null) :: fs => return (k, "") :: (← coerceStrings p fs)
  | (k, v) :: _ => .error (.nonString p k v)

/-- `NestedNullCoercingStringMap`; no entries if the field is not found. -/
def nestedStringMap (fs : Fields) (p : Path) : Except AccessErr (List (String × String)) := do
  match ← nestedFieldNoCopy fs p with
  | none => return []
  | some .null => return []
  | some (.obj m) => coerceStrings p m
  | some v => throw (.accessor p v "map[string]interface\x7b\x7d")

/-- `getNestedString`: empty if there is no string. -/
def getNestedString (fs : Fields) (p : Path) : String :=
  match nestedString fs p with
  | .ok (some s) => s
  | _ => ""

/-- A nested string map whose error is dropped; a nil map is empty. -/
def getStringMap (fs : Fields) (p : Path) : List (String × String) :=
  match nestedStringMap fs p with
  | .ok m => m
  | .error _ => []

/-- The loop of `setNestedFieldNoCopy`, after the keys `done`; the path is
`k :: p`. -/
def setFrom (fs : Fields) (done : Path) (k : String) (v : Value) : Path → Except AccessErr Fields
  | [] => .ok (put fs k v)
  | k' :: p =>
    match fs.lookup k with
    | none => do
      let sub ← setFrom [] (done ++ [k]) k' v p
      return put fs k (.obj sub)
    | some (.obj sub) => do
      let sub ← setFrom sub (done ++ [k]) k' v p
      return put fs k (.obj sub)
    | some _ => .error (.notMap (done ++ [k]))

/-- `SetNestedField` at the path `k :: p`. -/
def setNestedField (fs : Fields) (v : Value) (k : String) (p : Path) : Except AccessErr Fields :=
  setFrom fs [] k v p

/-- `Unstructured.setNestedMap`, which drops the error. -/
def setStringMap (fs : Fields) (m : List (String × String)) (k : String) (p : Path) : Fields :=
  match setNestedField fs (.obj (ofStrings m)) k p with
  | .ok fs => fs
  | .error _ => fs

/-! ## Reading -/

variable {fs fs' : Fields} {v w : Value} {k : String} {p done : Path}
variable {m : List (String × String)}

theorem nestedFrom_some_iff : nestedFrom v done p = .ok (some w) ↔ v.at? p = some w := by
  induction p generalizing v done with
  | nil => simp [nestedFrom]
  | cons k p ih =>
    cases v with
    | obj fs =>
      rw [nestedFrom, at?_cons]
      cases fs.lookup k with
      | none => simp
      | some u => exact ih
    | _ => simp [nestedFrom, at?]

theorem nestedFieldNoCopy_some_iff :
    nestedFieldNoCopy fs p = .ok (some w) ↔ (obj fs).at? p = some w := nestedFrom_some_iff

/-- A nested field of one type is found if and only if it is there. -/
theorem nestedAs_some_iff {α : Type} {expected : String} {as : Value → Option α} {wrap : α → Value}
    (has : ∀ v a, as v = some a ↔ v = wrap a) {a : α} :
    nestedAs expected as fs p = .ok (some a) ↔ (obj fs).at? p = some (wrap a) := by
  rw [← nestedFieldNoCopy_some_iff, nestedAs]
  cases nestedFieldNoCopy fs p with
  | error e => simp [bind, Except.bind]
  | ok r =>
    cases r with
    | none => simp [bind, Except.bind, pure, Except.pure]
    | some v =>
      simp only [bind, Except.bind, Except.ok.injEq, Option.some.injEq, ← has v a]
      cases as v <;> simp [throw, throwThe, MonadExceptOf.throw, pure, Except.pure]

theorem nestedString_some_iff {s : String} :
    nestedString fs p = .ok (some s) ↔ (obj fs).at? p = some (.str s) :=
  nestedAs_some_iff fun v a => by cases v <;> simp

theorem nestedSlice_some_iff {vs : List Value} :
    nestedSlice fs p = .ok (some vs) ↔ (obj fs).at? p = some (.arr vs) :=
  nestedAs_some_iff fun v a => by cases v <;> simp

theorem nestedMap_some_iff {sub : Fields} :
    nestedMap fs p = .ok (some sub) ↔ (obj fs).at? p = some (.obj sub) :=
  nestedAs_some_iff fun v a => by cases v <;> simp

theorem nestedFieldNoCopy_none (h : nestedFieldNoCopy fs p = .ok none) : (obj fs).at? p = none := by
  cases hat : (obj fs).at? p with
  | none => rfl
  | some w =>
    rw [nestedFieldNoCopy_some_iff.mpr hat] at h
    cases h

theorem nestedAs_none {α : Type} {expected : String} {as : Value → Option α}
    (h : nestedAs expected as fs p = .ok none) : (obj fs).at? p = none := by
  apply nestedFieldNoCopy_none
  unfold nestedAs at h
  cases hread : nestedFieldNoCopy fs p with
  | error e =>
    rw [hread] at h
    cases h
  | ok r =>
    cases r with
    | none => rfl
    | some v =>
      rw [hread] at h
      cases has : as v <;> simp [bind, Except.bind, has, throw, throwThe, MonadExceptOf.throw,
        pure, Except.pure] at h

/-- The string that stands somewhere, empty if there is none. -/
def stringOf : Option Value → String
  | some (.str s) => s
  | _ => ""

theorem getNestedString_eq : getNestedString fs p = stringOf ((obj fs).at? p) := by
  rw [getNestedString]
  split
  · next s hs => rw [nestedString_some_iff.mp hs, stringOf]
  rename_i hno
  rw [stringOf.eq_def]
  split
  · next s hs => exact absurd (nestedString_some_iff.mpr hs) (hno s)
  · rfl

theorem coerceStrings_ofStrings (m : List (String × String)) :
    coerceStrings p (ofStrings m) = .ok m := by
  induction m with
  | nil => rfl
  | cons f m ih =>
    simp only [ofStrings, List.map_cons, coerceStrings] at ih ⊢
    rw [ih]
    rfl

theorem nestedStringMap_ofStrings (h : (obj fs).at? p = some (.obj (ofStrings m))) :
    nestedStringMap fs p = .ok m := by
  rw [nestedStringMap, nestedFieldNoCopy_some_iff.mpr h]
  exact coerceStrings_ofStrings m

/-! ## String maps -/

/-- A map of strings, or nothing. -/
def IsStringMap (v : Option Value) : Prop :=
  v = none ∨ v = some .null ∨ ∃ m, v = some (.obj (ofStrings m))

@[simp] theorem lookup_ofStrings (m : List (String × String)) :
    (ofStrings m).lookup k = (m.lookup k).map .str := by
  induction m with
  | nil => rfl
  | cons f m ih =>
    rw [ofStrings, List.map_cons, lookup_cons_ite, lookup_cons_ite]
    split
    · rfl
    · exact ih

theorem getStringMap_ofStrings (h : (obj fs).at? p = some (.obj (ofStrings m))) :
    getStringMap fs p = m := by
  rw [getStringMap, nestedStringMap_ofStrings h]

theorem getStringMap_none (h : (obj fs).at? p = none) : getStringMap fs p = [] := by
  rw [getStringMap, nestedStringMap]
  cases hread : nestedFieldNoCopy fs p with
  | error e => rfl
  | ok r =>
    cases r with
    | none => rfl
    | some v =>
      rw [nestedFieldNoCopy_some_iff.mp hread] at h
      cases h

theorem getStringMap_null (h : (obj fs).at? p = some .null) : getStringMap fs p = [] := by
  rw [getStringMap, nestedStringMap, nestedFieldNoCopy_some_iff.mpr h]
  rfl

/-- What stands below a string map is what is read from it. -/
theorem IsStringMap.below (h : IsStringMap ((obj fs).at? p)) (q : Path) :
    ((obj fs).at? p).bind (·.at? (k :: q)) =
      ((getStringMap fs p).lookup k).bind fun s => (str s).at? q := by
  obtain h | h | ⟨m, h⟩ := h
  · simp [h, getStringMap_none h]
  · simp [h, getStringMap_null h, at?]
  · rw [h, getStringMap_ofStrings h, Option.bind_some, at?_cons, lookup_ofStrings, Option.bind_map]
    rfl

/-- A string map agrees with what is read from a string map outside the keys
at which it differs. -/
theorem IsStringMap.agreeOff (h : IsStringMap ((obj fs).at? p)) {ks : List String} (hks : ks ≠ [])
    (hm : ∀ j, j ∉ ks → m.lookup j = (getStringMap fs p).lookup j) :
    AgreeOff (ks.map ([·])) ((obj fs).at? p) (some (.obj (ofStrings m))) := by
  intro q hq
  rw [List.forall_mem_map] at hq
  cases q with
  | nil =>
    obtain ⟨j, hj⟩ := List.exists_mem_of_ne_nil ks hks
    exact absurd List.nil_prefix (hq j hj).2
  | cons j q =>
    have hj : j ∉ ks := fun hmem => (hq j hmem).1 (by simp)
    rw [h.below, ← hm j hj, Option.bind_some, at?_cons, lookup_ofStrings, Option.bind_map]
    rfl

/-! ## Writing -/

/-- One step of a write goes into the object at its key, or into a new one. -/
theorem setFrom_cons_ok {k' : String} (h : setFrom fs done k v (k' :: p) = .ok fs') :
    ∃ sub sub', (fs.lookup k = none ∧ sub = [] ∨ fs.lookup k = some (.obj sub)) ∧
      setFrom sub (done ++ [k]) k' v p = .ok sub' ∧ fs' = put fs k (.obj sub') := by
  rw [setFrom] at h
  split at h
  · next hnone =>
    obtain ⟨sub', hset, h₁⟩ := bind_eq_ok.mp h
    exact ⟨[], sub', .inl ⟨hnone, rfl⟩, hset, (pure_eq_ok.mp h₁).symm⟩
  · next sub hsome =>
    obtain ⟨sub', hset, h₁⟩ := bind_eq_ok.mp h
    exact ⟨sub, sub', .inr hsome, hset, (pure_eq_ok.mp h₁).symm⟩
  · cases h

/-- What is written is what is read back. -/
theorem setFrom_at (h : setFrom fs done k v p = .ok fs') : (obj fs').at? (k :: p) = some v := by
  induction p generalizing fs fs' done k with
  | nil =>
    cases h
    simp [at?_cons]
  | cons k' p ih =>
    obtain ⟨sub, sub', -, hset, rfl⟩ := setFrom_cons_ok h
    simpa [at?_cons] using ih hset

/-- A write changes nothing on a path that leads elsewhere. -/
theorem setFrom_diverges {q : Path} (h : setFrom fs done k v p = .ok fs')
    (hq : Diverges (k :: p) q) : (obj fs').at? q = (obj fs).at? q := by
  induction p generalizing fs fs' done k q with
  | nil =>
    cases h
    cases q with
    | nil => exact absurd List.nil_prefix hq.2
    | cons j q =>
      have hne : j ≠ k := by
        rintro rfl
        exact hq.1 (by simp)
      rw [at?_cons, at?_cons, lookup_put_ne hne]
  | cons k' p ih =>
    obtain ⟨sub, sub', hsub, hset, rfl⟩ := setFrom_cons_ok h
    cases q with
    | nil => exact absurd List.nil_prefix hq.2
    | cons j q =>
      by_cases hj : j = k
      · subst hj
        have hq' : Diverges (k' :: p) q := (diverges_append_left [j]).mp hq
        rw [at?_cons, lookup_put_self, Option.bind_some, ih hset hq', at?_cons]
        obtain ⟨hnone, rfl⟩ | hsome := hsub
        · cases q with
          | nil => exact absurd List.nil_prefix hq'.2
          | cons i q => simp [hnone, at?_cons]
        · rw [hsome, Option.bind_some]
      · rw [at?_cons, at?_cons, lookup_put_ne hj]

/-- Writing what is there changes nothing. -/
theorem setFrom_same (h : (obj fs).at? (k :: p) = some v) : setFrom fs done k v p = .ok fs := by
  induction p generalizing fs done k with
  | nil =>
    have hv : fs.lookup k = some v := by simpa [at?_cons] using h
    rw [setFrom, put_of_lookup hv]
  | cons k' p ih =>
    rw [at?_cons] at h
    cases hk : fs.lookup k with
    | none => simp [hk] at h
    | some w =>
      rw [hk, Option.bind_some] at h
      cases w with
      | obj sub =>
        simp only [setFrom, hk, ih h, bind, Except.bind, pure, Except.pure, put_of_lookup hk]
      | _ => simp [at?] at h

/-- A write at `k :: p` that changes only `ps` below there. -/
theorem setFrom_agreeOff (ps : List Path) (h : setFrom fs done k v p = .ok fs') (hps : ps ≠ [])
    (hv : AgreeOff ps ((obj fs).at? (k :: p)) (some v)) :
    AgreeOff (ps.map ((k :: p) ++ ·)) (some (.obj fs)) (some (.obj fs')) := by
  intro q hq
  rw [List.forall_mem_map] at hq
  rw [Option.bind_some, Option.bind_some]
  by_cases hbelow : k :: p <+: q
  · obtain ⟨r, rfl⟩ := hbelow
    rw [at?_append_of (setFrom_at h), at?_append]
    exact hv r fun p' hp' => (diverges_append_left _).mp (hq p' hp')
  · obtain ⟨p', hp'⟩ := List.exists_mem_of_ne_nil ps hps
    refine (setFrom_diverges h ⟨hbelow, fun habove => ?_⟩).symm
    exact (hq p' hp').2 (habove.trans (List.prefix_append _ _))

/-- A write two levels down succeeds if the upper level is absent or an
object. -/
theorem setNestedField_pair (h : ∀ u, fs.lookup k = some u → ∃ sub, u = .obj sub) (v : Value)
    (k' : String) : ∃ fs', setNestedField fs v k [k'] = .ok fs' := by
  cases hk : fs.lookup k with
  | none => exact ⟨_, by simp only [setNestedField, setFrom, hk]; rfl⟩
  | some u =>
    obtain ⟨sub, rfl⟩ := h u hk
    exact ⟨_, by simp only [setNestedField, setFrom, hk]; rfl⟩

theorem setStringMap_diverges {q : Path} (hq : Diverges (k :: p) q) :
    (obj (setStringMap fs m k p)).at? q = (obj fs).at? q := by
  rw [setStringMap]
  split
  · next hset => exact setFrom_diverges hset hq
  · rfl

/-- A string map is written two levels down, with other values at `ks`. -/
theorem setStringMap_pair {k' : String} (m : List (String × String)) (ks : List String)
    (hobj : ∀ u, fs.lookup k = some u → ∃ sub, u = .obj sub)
    (hmap : IsStringMap ((obj fs).at? [k, k'])) (hks : ks ≠ [])
    (hm : ∀ j, j ∉ ks → m.lookup j = (getStringMap fs [k, k']).lookup j) :
    (obj (setStringMap fs m k [k'])).at? [k, k'] = some (.obj (ofStrings m)) ∧
      AgreeOff (ks.map ([k, k', ·])) (some (.obj fs)) (some (.obj (setStringMap fs m k [k']))) := by
  obtain ⟨fs', hset⟩ := setNestedField_pair hobj (.obj (ofStrings m)) k'
  rw [setStringMap, hset]
  refine ⟨setFrom_at hset, ?_⟩
  have hagree := setFrom_agreeOff _ hset (by simpa using hks) (hmap.agreeOff hks hm)
  rwa [List.map_map] at hagree

end Berth.Json
