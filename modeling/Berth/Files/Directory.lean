/-
Berth.Files.Directory — names, and the files behind them.

A file has a number for good; a name leads to a number and may be taken
away from it while the file is open somewhere. No two names lead to one
file, and every name leads to a file that exists: both come with the
directory. A file remembers who made it and all that was `due` to be
written to it, which no operation reads.
-/
import Mathlib.Data.List.Basic
import Mathlib.Logic.Function.Basic

namespace Berth.Files

structure File where
  content : String
  mode : Nat
  mtime : Int
  maker : Option Nat
  due : String
  deriving DecidableEq, Repr

structure Directory where
  names : String → Option Nat
  files : List File
  bounded : ∀ {name n}, names name = some n → n < files.length
  injective : ∀ {a b n}, names a = some n → names b = some n → a = b

namespace Directory

variable (d : Directory) {name name' src dst : String} {n n' : Nat} {f f' : File}

def empty : Directory where
  names := fun _ => none
  files := []
  bounded := fun h => by cases h
  injective := fun h _ => by cases h

/-- The file that a name leads to. -/
def file? (name : String) : Option File := (d.names name).bind fun n => d.files[n]?

/-- A new file under a name that was free. -/
def create (name : String) (f : File) (h : d.names name = none) : Directory where
  names := Function.update d.names name (some d.files.length)
  files := d.files ++ [f]
  bounded := fun {name' n} hn => by
    by_cases hname : name' = name
    · subst hname
      rw [Function.update_self, Option.some.injEq] at hn
      simp [← hn]
    · rw [Function.update_of_ne hname] at hn
      have := d.bounded hn
      simp only [List.length_append, List.length_singleton]
      omega
  injective := fun {a b n} ha hb => by
    by_cases hna : a = name <;> by_cases hnb : b = name
    · rw [hna, hnb]
    · rw [hna, Function.update_self, Option.some.injEq] at ha
      rw [Function.update_of_ne hnb, ← ha] at hb
      exact absurd (d.bounded hb) (Nat.lt_irrefl _)
    · rw [hnb, Function.update_self, Option.some.injEq] at hb
      rw [Function.update_of_ne hna, ← hb] at ha
      exact absurd (d.bounded ha) (Nat.lt_irrefl _)
    · rw [Function.update_of_ne hna] at ha
      rw [Function.update_of_ne hnb] at hb
      exact d.injective ha hb

/-- Change a file, whatever it is called. -/
def modify (n : Nat) (g : File → File) : Directory where
  names := d.names
  files := d.files.modify n g
  bounded := fun hn => by
    rw [List.length_modify]
    exact d.bounded hn
  injective := d.injective

/-- Take a name away. -/
def unlink (name : String) : Directory where
  names := Function.update d.names name none
  files := d.files
  bounded := fun {name' n} hn => by
    by_cases hname : name' = name
    · rw [hname, Function.update_self] at hn
      cases hn
    · rw [Function.update_of_ne hname] at hn
      exact d.bounded hn
  injective := fun {a b n} ha hb => by
    by_cases hna : a = name
    · rw [hna, Function.update_self] at ha
      cases ha
    by_cases hnb : b = name
    · rw [hnb, Function.update_self] at hb
      cases hb
    rw [Function.update_of_ne hna] at ha
    rw [Function.update_of_ne hnb] at hb
    exact d.injective ha hb

/-- The file called `src` is called `dst` from now on, whatever was called
that before. -/
def rename (src dst : String) (n : Nat) (h : d.names src = some n) : Directory where
  names := Function.update (Function.update d.names src none) dst (some n)
  files := d.files
  bounded := fun {name' n'} hn => by
    by_cases hdst : name' = dst
    · rw [hdst, Function.update_self, Option.some.injEq] at hn
      exact hn ▸ d.bounded h
    · rw [Function.update_of_ne hdst] at hn
      exact (d.unlink src).bounded hn
  injective := fun {a b n'} ha hb => by
    -- nothing else leads to the file that moves
    have hfree : ∀ {c}, c ≠ dst →
        Function.update (Function.update d.names src none) dst (some n) c ≠ some n := by
      intro c hc hcn
      rw [Function.update_of_ne hc] at hcn
      by_cases hcs : c = src
      · rw [hcs, Function.update_self] at hcn
        cases hcn
      · rw [Function.update_of_ne hcs] at hcn
        exact hcs (d.injective hcn h)
    by_cases hna : a = dst <;> by_cases hnb : b = dst
    · rw [hna, hnb]
    · rw [hna, Function.update_self, Option.some.injEq] at ha
      exact absurd (ha ▸ hb) (hfree hnb)
    · rw [hnb, Function.update_self, Option.some.injEq] at hb
      exact absurd (hb ▸ ha) (hfree hna)
    · rw [Function.update_of_ne hna] at ha
      rw [Function.update_of_ne hnb] at hb
      exact (d.unlink src).injective ha hb

/-! ## Names -/

@[simp] theorem names_create_self (h : d.names name = none) :
    (d.create name f h).names name = some d.files.length := Function.update_self ..

theorem names_create_of_ne (h : d.names name = none) (hne : name' ≠ name) :
    (d.create name f h).names name' = d.names name' := Function.update_of_ne hne ..

@[simp] theorem names_modify (n : Nat) (g : File → File) : (d.modify n g).names = d.names := rfl

@[simp] theorem names_unlink_self : (d.unlink name).names name = none := Function.update_self ..

theorem names_unlink_of_ne (hne : name' ≠ name) : (d.unlink name).names name' = d.names name' :=
  Function.update_of_ne hne ..

@[simp] theorem names_rename_dst (h : d.names src = some n) :
    (d.rename src dst n h).names dst = some n := Function.update_self ..

theorem names_rename_src (h : d.names src = some n) (hne : src ≠ dst) :
    (d.rename src dst n h).names src = none := by
  simp [rename, Function.update_of_ne hne]

theorem names_rename_of_ne (h : d.names src = some n) (hsrc : name ≠ src) (hdst : name ≠ dst) :
    (d.rename src dst n h).names name = d.names name := by
  simp [rename, Function.update_of_ne hdst, Function.update_of_ne hsrc]

/-! ## Files -/

@[simp] theorem files_rename (h : d.names src = some n) : (d.rename src dst n h).files = d.files :=
  rfl

theorem files_create_of_some (h : d.names name = none) (hn : d.files[n]? = some f') :
    (d.create name f h).files[n]? = some f' := by
  rw [create, List.getElem?_append_left (List.getElem?_eq_some_iff.mp hn).1]
  exact hn

theorem files_create_cases (h : d.names name = none)
    (hn : (d.create name f h).files[n]? = some f') :
    d.files[n]? = some f' ∨ n = d.files.length ∧ f' = f := by
  rw [create, List.getElem?_append] at hn
  split at hn
  · exact .inl hn
  rw [List.getElem?_singleton] at hn
  split at hn
  · next hlt h0 =>
    cases hn
    exact .inr ⟨by omega, rfl⟩
  · cases hn

@[simp] theorem files_create_new (h : d.names name = none) :
    (d.create name f h).files[d.files.length]? = some f := by
  simp [create]

theorem files_modify_self {g : File → File} (hn : d.files[n]? = some f) :
    (d.modify n g).files[n]? = some (g f) := by
  simp [modify, hn]

theorem files_modify_of_ne {g : File → File} (hne : n' ≠ n) :
    (d.modify n g).files[n']? = d.files[n']? := by
  simp [modify, hne.symm]

/-! ## What a name leads to -/

theorem file?_of (hname : d.names name = some n) (hf : d.files[n]? = some f) :
    d.file? name = some f := by rw [file?, hname, Option.bind_some, hf]

/-- A name that leads to the same file as before, unchanged. -/
theorem file?_congr {d d' : Directory} (hname : d'.names name = d.names name)
    (hfile : ∀ n, d.names name = some n → d'.files[n]? = d.files[n]?) :
    d'.file? name = d.file? name := by
  rw [file?, file?, hname]
  cases h : d.names name with
  | none => rfl
  | some n => exact hfile n h

end Directory

end Berth.Files
