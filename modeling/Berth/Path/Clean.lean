/-
Berth.Path.Clean — slash-separated paths as Go's `path` package treats
them.

The elements of a path are what stands between its slashes. `path.Clean`
reads them from left to right onto a stack: empty elements and `.` are
dropped, and `..` removes the element before it. Above the root there is
nothing, so a rooted path drops a `..` that finds the stack empty, while a
relative one keeps it.

A path also names a place in a file tree: `resolve` reads it against the
root whether it starts with a slash or not, and `Within` is the order of
places. `within_clean` compares the two readings: on absolute paths the
test on cleaned texts sees every path at or below a root. A relative path
is out of its reach, since cleaning keeps it relative.
-/
import Mathlib.Data.List.Basic

namespace Berth.Path

/-! ## Elements -/

/-- The element `..`. -/
def dotDot : List Char := ['.', '.']

/-- One element onto the elements kept so far, last one first. -/
def push (rooted : Bool) (kept : List (List Char)) (e : List Char) : List (List Char) :=
  if e = [] ∨ e = ['.'] then kept
  else if e = dotDot then
    match kept with
    | [] => if rooted then [] else [dotDot]
    | top :: below => if top = dotDot then dotDot :: top :: below else below
  else e :: kept

/-- The elements of a cleaned path. -/
def elements (rooted : Bool) (p : String) : List (List Char) :=
  ((p.toList.splitOn '/').foldl (push rooted) []).reverse

/-- Elements as a path, each behind its slash. -/
def render (es : List (List Char)) : List Char := es.flatMap fun e => '/' :: e

/-! ## The package -/

/-- `path.IsAbs`. -/
def isAbs (p : String) : Bool := p.toList.head? == some '/'

/-- `path.Clean`. -/
def clean (p : String) : String :=
  let es := elements (isAbs p) p
  String.ofList <|
    if isAbs p then if es = [] then ['/'] else render es
    else if es = [] then ['.'] else (render es).tail

/-- `path.Dir`: what stands up to the last slash, cleaned. -/
def dir (p : String) : String :=
  clean (String.ofList (p.toList.reverse.dropWhile (· ≠ '/')).reverse)

/-- `path.Base`: the last element. -/
def base (p : String) : String :=
  if p = "" then "."
  else
    match p.toList.reverse.dropWhile (· = '/') with
    | [] => "/"
    | cs => String.ofList (cs.takeWhile (· ≠ '/')).reverse

/-- `strings.HasPrefix`. -/
def hasPrefix (s t : String) : Bool := t.toList.isPrefixOf s.toList

/-- `strings.TrimSuffix`. -/
def trimSuffix (s t : String) : String :=
  if t.toList.isSuffixOf s.toList then
    String.ofList (s.toList.take (s.toList.length - t.toList.length))
  else s

/-! ## Places -/

/-- The place a path names when it is read against the root. -/
def resolve (p : String) : List (List Char) := elements true p

/-- The path `p` names the place `root` names, or one below it. -/
def Within (root p : String) : Prop := resolve root <+: resolve p

instance (root p : String) : Decidable (Within root p) :=
  inferInstanceAs (Decidable (resolve root <+: resolve p))

theorem Within.refl (p : String) : Within p p := List.prefix_refl _

/-- An element that can stand in a cleaned path. -/
def Plain (e : List Char) : Prop := e ≠ [] ∧ '/' ∉ e

theorem plain_dotDot : Plain dotDot := by
  unfold Plain
  decide

theorem not_mem_of_mem_splitOn {c : Char} {cs e : List Char} (h : e ∈ cs.splitOn c) : c ∉ e := by
  induction cs generalizing e with
  | nil =>
    rw [List.splitOn_nil, List.mem_singleton] at h
    simp [h]
  | cons d ds ih =>
    rw [List.splitOn, List.splitOnP_cons_eq_if_modifyHead] at h
    split at h
    · rcases List.mem_cons.mp h with rfl | h
      · exact List.not_mem_nil
      · exact ih h
    · next hd =>
      obtain ⟨f, fs, hfs⟩ : ∃ f fs, ds.splitOnP (· == c) = f :: fs :=
        List.exists_cons_of_ne_nil (List.splitOnP_ne_nil _ _)
      rw [hfs, List.modifyHead_cons] at h
      rcases List.mem_cons.mp h with rfl | h
      · have hf : c ∉ f := ih (by rw [List.splitOn, hfs]; exact List.mem_cons_self)
        rw [beq_iff_eq] at hd
        exact fun hc => (List.mem_cons.mp hc).elim (fun heq => hd heq.symm) hf
      · exact ih (by rw [List.splitOn, hfs]; exact List.mem_cons_of_mem _ h)

theorem plain_push {rooted : Bool} {kept : List (List Char)} {e : List Char}
    (hkept : ∀ x ∈ kept, Plain x) (he : '/' ∉ e) : ∀ x ∈ push rooted kept e, Plain x := by
  intro x hx
  unfold push at hx
  split at hx
  · exact hkept x hx
  rename_i hne
  split at hx
  · split at hx
    · split at hx
      · exact absurd hx List.not_mem_nil
      · rw [List.mem_singleton] at hx
        exact hx ▸ plain_dotDot
    · split at hx
      · rcases List.mem_cons.mp hx with rfl | hx
        · exact plain_dotDot
        · exact hkept x hx
      · exact hkept x (List.mem_cons_of_mem _ hx)
  · rcases List.mem_cons.mp hx with rfl | hx
    · exact ⟨fun h => hne (.inl h), he⟩
    · exact hkept x hx

theorem plain_foldl_push {rooted : Bool} {es kept : List (List Char)}
    (hes : ∀ e ∈ es, '/' ∉ e) (hkept : ∀ x ∈ kept, Plain x) :
    ∀ x ∈ es.foldl (push rooted) kept, Plain x := by
  induction es generalizing kept with
  | nil => exact hkept
  | cons e es ih =>
    refine ih (fun f hf => hes f (List.mem_cons_of_mem _ hf)) ?_
    exact plain_push hkept (hes e List.mem_cons_self)

theorem plain_of_mem_elements {rooted : Bool} {p : String} {e : List Char}
    (h : e ∈ elements rooted p) : Plain e :=
  plain_foldl_push (fun _ hf => not_mem_of_mem_splitOn hf) (List.forall_mem_nil _) e
    (List.mem_reverse.mp h)

/-! ## Cleaned texts -/

theorem toList_clean {p : String} (h : isAbs p = true) :
    (clean p).toList = if resolve p = [] then ['/'] else render (resolve p) := by
  by_cases hnil : elements true p = [] <;> simp [clean, resolve, h, hnil]

theorem render_append (es fs : List (List Char)) : render (es ++ fs) = render es ++ render fs :=
  List.flatMap_append

/-- A path of plain elements does not end in a slash. -/
theorem render_not_slash {es : List (List Char)} (hes : ∀ e ∈ es, Plain e) (hne : es ≠ []) :
    ¬ ['/'] <:+ render es := by
  obtain ⟨fs, e, rfl⟩ : ∃ fs e, es = fs ++ [e] :=
    ⟨es.dropLast, es.getLast hne, (List.dropLast_concat_getLast hne).symm⟩
  obtain ⟨hnil, hslash⟩ := hes e (by simp)
  obtain ⟨cs, c, rfl⟩ : ∃ cs c, e = cs ++ [c] :=
    ⟨e.dropLast, e.getLast hnil, (List.dropLast_concat_getLast hnil).symm⟩
  rintro ⟨pre, hpre⟩
  have hlast : render (fs ++ [cs ++ [c]]) = (render fs ++ '/' :: cs) ++ [c] := by
    simp [render]
  rw [hlast] at hpre
  have hc : '/' = c := by simpa using (List.append_inj' hpre rfl).2
  exact hslash (hc ▸ List.mem_append_right _ List.mem_cons_self)

/-- What the root of a test becomes when its slash is put back. -/
theorem toList_root {root : String} (h : isAbs root = true) :
    (trimSuffix (clean root) "/" ++ "/").toList = render (resolve root) ++ ['/'] := by
  have hslash : "/".toList = ['/'] := by decide
  rw [String.toList_append, hslash, trimSuffix, hslash, toList_clean h]
  by_cases hnil : resolve root = []
  · simp [hnil, render]
  · have hend : ¬ ['/'] <:+ render (resolve root) :=
      render_not_slash (fun _ he => plain_of_mem_elements he) hnil
    rw [if_neg hnil, if_neg (by rwa [List.isSuffixOf_iff_suffix]), toList_clean h, if_neg hnil]

/-- On absolute paths the test on cleaned texts sees every path within the
root. -/
theorem within_clean {root p : String} (hroot : isAbs root = true) (hp : isAbs p = true)
    (h : Within root p) :
    clean p = clean root ∨ hasPrefix (clean p) (trimSuffix (clean root) "/" ++ "/") = true := by
  obtain ⟨es, hes⟩ := h
  cases es with
  | nil =>
    rw [List.append_nil] at hes
    refine .inl (String.toList_inj.mp ?_)
    rw [toList_clean hp, toList_clean hroot, hes]
  | cons e es =>
    have hne : resolve p ≠ [] := by simp [← hes]
    refine .inr ?_
    rw [hasPrefix, List.isPrefixOf_iff_prefix, toList_root hroot, toList_clean hp, if_neg hne,
      ← hes, render_append]
    refine (List.prefix_append_right_inj _).mpr ?_
    exact ⟨e ++ render es, rfl⟩

example : clean "/a//b/../c/./" = "/a/c" := by decide

example : clean "../a" = "../a" ∧ resolve "../a" = resolve "/a" := by decide

end Berth.Path
