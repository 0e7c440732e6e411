/-
Berth.Checks.First — validations that stop at their first complaint.

A check is an `Option`: no complaint, or the first one. Checks are put in
sequence with `<|>`, a loop over a list is `findSome?`, and `pass` ends a
computation with the complaint of a check. The lemmas turn success of
such a computation into what each of its checks has found.
-/
import Mathlib.Data.List.Forall2
import Mathlib.Data.Option.Basic

namespace Berth.Checks

variable {ε α β : Type}

/-- Complain when `p` holds. -/
def refuse (p : Prop) [Decidable p] (e : ε) : Option ε := if p then some e else none

/-- Go on when there is no complaint. -/
def pass : Option ε → Except ε Unit
  | none => .ok ()
  | some e => .error e

@[simp] theorem refuse_eq_none {p : Prop} [Decidable p] {e : ε} : refuse p e = none ↔ ¬ p := by
  simp [refuse]

@[simp] theorem pass_eq_ok {o : Option ε} {u : Unit} : pass o = .ok u ↔ o = none := by
  cases o <;> simp [pass]

theorem bind_eq_ok {x : Except ε α} {f : α → Except ε β} {b : β} :
    (x >>= f) = .ok b ↔ ∃ a, x = .ok a ∧ f a = .ok b := by
  cases x <;> simp [bind, Except.bind]

theorem pure_eq_ok {a b : α} : (pure a : Except ε α) = .ok b ↔ a = b := by
  simp [pure, Except.pure]

/-- A loop that succeeds has succeeded on each element, in order. -/
theorem mapM_eq_ok {f : α → Except ε β} {xs : List α} {ys : List β} :
    xs.mapM f = .ok ys ↔ List.Forall₂ (fun x y => f x = .ok y) xs ys := by
  induction xs generalizing ys with
  | nil => rw [List.mapM_nil, pure_eq_ok, List.forall₂_nil_left_iff, eq_comm]
  | cons x xs ih =>
    simp only [List.mapM_cons, bind_eq_ok, pure_eq_ok, ih, List.forall₂_cons_left_iff]
    constructor
    · rintro ⟨y, hy, zs, hzs, rfl⟩
      exact ⟨y, zs, hy, hzs, rfl⟩
    · rintro ⟨y, zs, hy, hzs, rfl⟩
      exact ⟨y, hy, zs, hzs, rfl⟩

/-- What the relation gives of the right element, on every right element. -/
theorem forall_mem_of_forall₂ {R : α → β → Prop} {p : β → Prop} {xs : List α} {ys : List β}
    (h : List.Forall₂ R xs ys) (hp : ∀ x y, R x y → p y) : ∀ y ∈ ys, p y := by
  induction h with
  | nil => exact List.forall_mem_nil _
  | cons hxy _ ih => exact List.forall_mem_cons.mpr ⟨hp _ _ hxy, ih⟩

/-- A relation between lists together with what holds of every right
element. -/
theorem forall₂_with_right {R : α → β → Prop} {p : β → Prop} {xs : List α} {ys : List β}
    (h : List.Forall₂ R xs ys) (hp : ∀ y ∈ ys, p y) :
    List.Forall₂ (fun x y => R x y ∧ p y) xs ys := by
  induction h with
  | nil => exact .nil
  | cons hxy _ ih =>
    obtain ⟨hy, hys⟩ := List.forall_mem_cons.mp hp
    exact .cons ⟨hxy, hy⟩ (ih hys)

end Berth.Checks
