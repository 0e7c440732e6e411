/-
Berth.Json.Value — JSON values and what stands at a path of keys.

An object is a list of fields, of which the first with a name counts.
`put` writes a field where it stands, so writing what is there changes
nothing, in the order of the fields too.

`AgreeOff ps` is the frame relation: two values have the same content
outside the paths `ps`. It is stated by reading: a path that neither leads
to one of `ps` nor below one reads the same in both.
-/
import Mathlib.Data.List.Infix

namespace Berth.Json

/-! ## Fields -/

section Fields

variable {β γ : Type} {k k' : String} {v : β} {fs : List (String × β)}

/-- Write a field: in its place if there is one, else at the end. -/
def put (fs : List (String × β)) (k : String) (v : β) : List (String × β) :=
  match fs with
  | [] => [(k, v)]
  | f :: fs => if k = f.1 then (k, v) :: fs else f :: put fs k v

theorem lookup_cons_ite (f : String × β) :
    (f :: fs).lookup k = if k = f.1 then some f.2 else fs.lookup k := by
  rw [List.lookup_cons]
  split <;> simp_all

@[simp] theorem lookup_put_self : (put fs k v).lookup k = some v := by
  induction fs with
  | nil => simp [put]
  | cons f fs ih =>
    rw [put]
    split
    · simp
    · next hne => rw [lookup_cons_ite, if_neg hne, ih]

@[simp] theorem lookup_put_ne (h : k' ≠ k) : (put fs k v).lookup k' = fs.lookup k' := by
  induction fs with
  | nil => simp [put, lookup_cons_ite, h]
  | cons f fs ih =>
    rw [put]
    split
    · next heq => simp only [lookup_cons_ite, ← heq, if_neg h]
    · simp only [lookup_cons_ite, ih]

theorem put_of_lookup (h : fs.lookup k = some v) : put fs k v = fs := by
  induction fs with
  | nil => cases h
  | cons f fs ih =>
    rw [lookup_cons_ite] at h
    rw [put]
    split
    · next heq =>
      rw [if_pos heq] at h
      cases h
      rw [heq]
    · next hne =>
      rw [if_neg hne] at h
      rw [ih h]

end Fields

/-! ## Values -/

/-- A JSON value. A number is its literal; nothing here computes with one. -/
inductive Value where
  | null
  | bool (b : Bool)
  | num (literal : String)
  | str (s : String)
  | arr (items : List Value)
  | obj (fields : List (String × Value))

/-- The fields of an object. -/
abbrev Fields := List (String × Value)

abbrev Path := List String

/-- An object of strings. -/
def ofStrings (m : List (String × String)) : Fields := m.map fun f => (f.1, .str f.2)

namespace Value

/-- What stands at a path of keys, if every step leads through an object. -/
def at? : Value → Path → Option Value
  | v, [] => some v
  | .obj fs, k :: p =>
    match fs.lookup k with
    | none => none
    | some v => v.at? p
  | _, _ :: _ => none

@[simp] theorem at?_nil (v : Value) : v.at? [] = some v := by cases v <;> rfl

theorem at?_cons (fs : Fields) (k : String) (p : Path) :
    (obj fs).at? (k :: p) = (fs.lookup k).bind (·.at? p) := by
  rw [at?]
  cases fs.lookup k <;> rfl

theorem at?_append (v : Value) (p q : Path) : v.at? (p ++ q) = (v.at? p).bind (·.at? q) := by
  induction p generalizing v with
  | nil => simp
  | cons k p ih =>
    cases v with
    | obj fs =>
      rw [List.cons_append, at?_cons, at?_cons]
      cases fs.lookup k with
      | none => rfl
      | some w => exact ih w
    | _ => rfl

/-- Only an object has something below it. -/
theorem object_of_at? {v w : Value} {k : String} {p : Path} (h : v.at? (k :: p) = some w) :
    ∃ fs, v = .obj fs := by
  cases v with
  | obj fs => exact ⟨fs, rfl⟩
  | _ => simp [at?] at h

/-- Reading below what stands at a path. -/
theorem at?_append_of {v w : Value} {p : Path} (h : v.at? p = some w) (q : Path) :
    v.at? (p ++ q) = w.at? q := by rw [at?_append, h, Option.bind_some]

end Value

/-! ## Agreement outside of paths -/

/-- Neither path leads to the other. -/
def Diverges (p q : Path) : Prop := ¬ p <+: q ∧ ¬ q <+: p

/-- The same content outside the paths `ps`. -/
def AgreeOff (ps : List Path) (x y : Option Value) : Prop :=
  ∀ q, (∀ p ∈ ps, Diverges p q) → x.bind (·.at? q) = y.bind (·.at? q)

theorem diverges_append_left (p : Path) {q r : Path} :
    Diverges (p ++ q) (p ++ r) ↔ Diverges q r := by
  simp only [Diverges, List.prefix_append_right_inj]

theorem diverges_of_head_ne {k k' : String} (h : k ≠ k') (p q : Path) :
    Diverges (k :: p) (k' :: q) := by
  simp [Diverges, List.cons_prefix_cons, h, h.symm]

namespace AgreeOff

variable {ps qs : List Path} {x y z : Option Value}

theorem trans (hxy : AgreeOff ps x y) (hyz : AgreeOff ps y z) : AgreeOff ps x z :=
  fun q hq => (hxy q hq).trans (hyz q hq)

theorem mono (h : AgreeOff ps x y) (hsub : ps ⊆ qs) : AgreeOff qs x y :=
  fun q hq => h q fun p hp => hq p (hsub hp)

theorem at? {x y : Value} {q : Path} (h : AgreeOff ps (some x) (some y))
    (hq : ∀ p ∈ ps, Diverges p q) : y.at? q = x.at? q := (h q hq).symm

end AgreeOff

end Berth.Json
