/-
Berth.Http.Mux — requests to handlers, as Go's `http.ServeMux` does it.

A pattern is a method and segments, of which a wildcard takes one segment
whatever it is. Patterns that end in a slash or take several segments do
not occur. Before anything is matched the path is cleaned, and a request
for a path that is not clean is redirected to the clean one.

The path is the escaped one. It is cut at its slashes first, and each
segment is unescaped after that: an escaped slash does not separate
segments, but a segment that is nothing else looks to a wildcard like the
end of a path in a slash, which it does not take.
-/
import Berth.Http.Escape
import Berth.Path.Clean
import Mathlib.Data.List.Dedup
import Mathlib.Data.List.Sort

namespace Berth.Http

open Berth.Path (Plain dotDot render)

/-! ## Patterns -/

inductive Segment where
  | lit (s : String)
  | wild (name : String)
  deriving DecidableEq, Repr

structure Pattern where
  method : String
  segments : List Segment
  deriving DecidableEq, Repr

/-- The values of the wildcards, by name. -/
abbrev PathValues := List (String × String)

/-- Match the segments of a path. -/
def matchPath : List Segment → List String → Option PathValues
  | [], [] => some []
  | .lit s :: ps, x :: xs => if s = x then matchPath ps xs else none
  | .wild name :: ps, x :: xs =>
    if x = "/" then none else (matchPath ps xs).map ((name, x) :: ·)
  | _, _ => none

theorem matchPath_nil {segs : List String} {vs : PathValues} :
    matchPath [] segs = some vs ↔ segs = [] ∧ vs = [] := by
  cases segs <;> simp [matchPath, eq_comm]

theorem matchPath_lit {s : String} {ps : List Segment} {segs : List String} {vs : PathValues} :
    matchPath (.lit s :: ps) segs = some vs ↔ ∃ xs, segs = s :: xs ∧ matchPath ps xs = some vs := by
  cases segs with
  | nil => simp [matchPath]
  | cons x xs =>
    by_cases h : s = x
    · simp [matchPath, h]
    · simp [matchPath, h, Ne.symm h]

theorem matchPath_wild {name : String} {ps : List Segment} {segs : List String} {vs : PathValues} :
    matchPath (.wild name :: ps) segs = some vs ↔
      ∃ x xs ws, segs = x :: xs ∧ x ≠ "/" ∧ matchPath ps xs = some ws ∧ vs = (name, x) :: ws := by
  cases segs with
  | nil => simp [matchPath]
  | cons x xs =>
    by_cases h : x = "/"
    · simp [matchPath, h]
    · simp [matchPath, h, eq_comm]

/-! ## Paths -/

/-- `cleanPath`. The slash at the end stays. -/
def cleanPath (p : String) : String :=
  if p = "" then "/"
  else
    let p := if Path.isAbs p then p else "/" ++ p
    let np := Path.clean p
    if p.toList.getLast? = some '/' ∧ np ≠ "/" then np ++ "/" else np

/-- The segments of a path, as they are matched. What follows the last
slash counts as a slash if it is nothing. -/
def pathSegments (p : String) : List String :=
  (p.toList.splitOn '/').tail.map fun e => if e = [] then "/" else pathUnescape e

/-! ## Multiplexer -/

/-- What becomes of a request. -/
inductive Route (α : Type) where
  | redirect (location : String)
  | handler (h : α) (values : PathValues)
  | methodNotAllowed (allow : List String)
  | notFound

variable {α : Type}

/-- The registered patterns with their handlers. -/
abbrev ServeMux (α : Type) := List (Pattern × α)

/-- The methods whose patterns are tried. -/
def triedMethods (method : String) : List String :=
  if method = "HEAD" then ["HEAD", "GET"] else [method]

def findMethod (mux : ServeMux α) (segs : List String) (method : String) :
    Option (α × PathValues) :=
  mux.findSome? fun r =>
    if r.1.method = method then (matchPath r.1.segments segs).map fun vs => (r.2, vs) else none

/-- The methods that would have found a handler. -/
def allowedMethods (mux : ServeMux α) (segs : List String) : List String :=
  let found := (mux.filter fun r => (matchPath r.1.segments segs).isSome).map fun r => r.1.method
  let found := if "GET" ∈ found then "HEAD" :: found else found
  found.dedup.insertionSort (· ≤ ·)

/-- `ServeMux.findHandler`. -/
def findHandler (mux : ServeMux α) (method path : String) : Route α :=
  let cleaned := if method = "CONNECT" then path else cleanPath path
  if cleaned ≠ path then .redirect (escapePath cleaned)
  else
    match (triedMethods method).findSome? (findMethod mux (pathSegments path)) with
    | some (h, values) => .handler h values
    | none =>
      match allowedMethods mux (pathSegments path) with
      | [] => .notFound
      | allow => .methodNotAllowed allow

/-- A handler was registered for the method and the path, which is clean. -/
theorem findHandler_handler {mux : ServeMux α} {method path : String} {h : α} {values : PathValues}
    (hfind : findHandler mux method path = .handler h values) :
    (method = "CONNECT" ∨ cleanPath path = path) ∧ ∃ p, (p, h) ∈ mux ∧
      p.method ∈ triedMethods method ∧ matchPath p.segments (pathSegments path) = some values := by
  have hclean : method = "CONNECT" ∨ cleanPath path = path := by
    by_cases hconnect : method = "CONNECT"
    · exact .inl hconnect
    · refine .inr (Decidable.of_not_not fun hne => ?_)
      simp [findHandler, hconnect, hne] at hfind
  have hcleaned : (if method = "CONNECT" then path else cleanPath path) = path := by
    split
    · rfl
    · next hconnect => exact hclean.resolve_left hconnect
  simp only [findHandler, hcleaned, ne_eq, not_true, if_false] at hfind
  refine ⟨hclean, ?_⟩
  cases hsome : (triedMethods method).findSome? (findMethod mux (pathSegments path)) with
  | none =>
    rw [hsome] at hfind
    dsimp only at hfind
    split at hfind <;> cases hfind
  | some x =>
    rw [hsome] at hfind
    cases hfind
    obtain ⟨m, hm, hfound⟩ := List.exists_of_findSome?_eq_some hsome
    obtain ⟨r, hr, hmatch⟩ := List.exists_of_findSome?_eq_some hfound
    split at hmatch
    · next hmethod =>
      obtain ⟨vs, hvs, heq⟩ := Option.map_eq_some_iff.mp hmatch
      cases heq
      exact ⟨r.1, hr, by rwa [hmethod], hvs⟩
    · cases hmatch

/-! ## Clean paths -/

/-- A segment that cleaning does not touch. -/
def Clean (e : List Char) : Prop := e ≠ [] ∧ e ≠ ['.'] ∧ e ≠ dotDot

instance (e : List Char) : Decidable (Clean e) :=
  inferInstanceAs (Decidable (e ≠ [] ∧ e ≠ ['.'] ∧ e ≠ dotDot))

theorem splitOn_render {es : List (List Char)} (h : ∀ e ∈ es, '/' ∉ e) :
    (render es).splitOn '/' = [] :: es := by
  have hinter : render es = ['/'].intercalate ([] :: es) := by
    have hall : ∀ e : List Char, e ++ render es = ['/'].intercalate (e :: es) := by
      induction es with
      | nil => intro e; simp [render]
      | cons f es ih =>
        intro e
        rw [List.intercalate_cons_cons, ← ih fun x hx => h x (List.mem_cons_of_mem f hx)]
        simp [render]
    exact hall []
  rw [hinter, List.splitOn_intercalate]
  · simpa using h
  · simp

theorem clean_push {kept : List (List Char)} {e : List Char} (h : ∀ x ∈ kept, Clean x) :
    ∀ x ∈ Path.push true kept e, Clean x := by
  intro x hx
  unfold Path.push at hx
  split at hx
  · exact h x hx
  rename_i hne
  split at hx
  · cases kept with
    | nil => simp at hx
    | cons top below =>
      have htop := (h top List.mem_cons_self).2.2
      simp only [if_neg htop] at hx
      exact h x (List.mem_cons_of_mem top hx)
  · next hdots =>
    rcases List.mem_cons.mp hx with rfl | hx
    · exact ⟨fun hnil => hne (.inl hnil), fun hdot => hne (.inr hdot), hdots⟩
    · exact h x hx

/-- A rooted path that has been cleaned has only clean segments. -/
theorem clean_of_mem_elements {p : String} {e : List Char} (h : e ∈ Path.elements true p) :
    Clean e := by
  have hall : ∀ (es kept : List (List Char)), (∀ x ∈ kept, Clean x) →
      ∀ x ∈ es.foldl (Path.push true) kept, Clean x := by
    intro es
    induction es with
    | nil => exact fun _ hkept => hkept
    | cons f es ih => exact fun kept hkept => ih _ (clean_push hkept)
  exact hall _ [] (by simp) e (List.mem_reverse.mp h)

theorem elements_of_clean {es : List (List Char)} (hslash : ∀ e ∈ es, '/' ∉ e)
    (h : ∀ e ∈ es, Clean e) : Path.elements true (String.ofList (render es)) = es := by
  have hfold : ∀ kept, es.foldl (Path.push true) kept = es.reverse ++ kept := by
    clear hslash
    induction es with
    | nil => simp
    | cons e es ih =>
      intro kept
      obtain ⟨hnil, hdot, hdots⟩ := h e List.mem_cons_self
      have hpush : Path.push true kept e = e :: kept := by simp [Path.push, hnil, hdot, hdots]
      rw [List.foldl_cons, hpush, ih fun x hx => h x (List.mem_cons_of_mem e hx)]
      simp
  have hpush : Path.push true [] [] = [] := by simp [Path.push]
  rw [Path.elements, String.toList_ofList, splitOn_render hslash, List.foldl_cons, hpush, hfold]
  simp

theorem render_injective {es fs : List (List Char)} (hes : ∀ e ∈ es, '/' ∉ e)
    (hfs : ∀ e ∈ fs, '/' ∉ e) (h : render es = render fs) : es = fs := by
  have hsplit := splitOn_render hes
  rw [h, splitOn_render hfs] at hsplit
  exact (List.cons_injective hsplit).symm

theorem isAbs_render {es : List (List Char)} (hne : es ≠ []) :
    Path.isAbs (String.ofList (render es)) = true := by
  cases es with
  | nil => exact absurd rfl hne
  | cons e es => simp [Path.isAbs, render]

/-- A path whose last segment is not empty does not end in a slash. -/
theorem cleanPath_render {es : List (List Char)} (hslash : ∀ e ∈ es, '/' ∉ e) (hne : es ≠ [])
    (hlast : es.getLast hne ≠ []) :
    cleanPath (String.ofList (render es)) = Path.clean (String.ofList (render es)) := by
  have habs := isAbs_render hne
  have hempty : String.ofList (render es) ≠ "" := by
    intro h
    rw [h] at habs
    exact absurd habs (by decide)
  have hend : (render es).getLast? ≠ some '/' := by
    obtain ⟨fs, e, rfl⟩ : ∃ fs e, es = fs ++ [e] :=
      ⟨es.dropLast, es.getLast hne, (List.dropLast_concat_getLast hne).symm⟩
    rw [List.getLast_append_singleton] at hlast
    obtain ⟨cs, c, rfl⟩ : ∃ cs c, e = cs ++ [c] :=
      ⟨e.dropLast, e.getLast hlast, (List.dropLast_concat_getLast hlast).symm⟩
    have htext : render (fs ++ [cs ++ [c]]) = (render fs ++ '/' :: cs) ++ [c] := by simp [render]
    rw [htext, List.getLast?_concat]
    rintro ⟨rfl⟩
    exact hslash (cs ++ ['/']) (by simp) (by simp)
  simp only [cleanPath, hempty, habs, if_false, if_true, String.toList_ofList, hend, false_and]

/-- Such a path is clean exactly when all its segments are. -/
theorem cleanPath_eq_self {es : List (List Char)} (hslash : ∀ e ∈ es, '/' ∉ e) (hne : es ≠ [])
    (hlast : es.getLast hne ≠ []) :
    cleanPath (String.ofList (render es)) = String.ofList (render es) ↔ ∀ e ∈ es, Clean e := by
  have htext := Path.toList_clean (isAbs_render hne)
  rw [cleanPath_render hslash hne hlast, ← String.toList_inj, htext, String.toList_ofList]
  constructor
  · intro h
    split at h
    · -- the root alone: its only segment is empty
      have hes : [[]] = es := render_injective (by simp) hslash h
      subst hes
      exact absurd rfl hlast
    · have hplain : ∀ e ∈ Path.resolve (String.ofList (render es)), '/' ∉ e :=
        fun e he => (Path.plain_of_mem_elements he).2
      rw [← render_injective hplain hslash h]
      exact fun e he => clean_of_mem_elements he
  · intro h
    rw [Path.resolve, elements_of_clean hslash h, if_neg hne]

end Berth.Http
