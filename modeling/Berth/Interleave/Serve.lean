/-
Berth.Interleave.Serve — programs that have their server to themselves.

A `Handler` says which answers an operation may get in a state, and which
state each leaves behind. `Served` is one execution of a program against a
handler. `Meets` is about all of them, and total: the program is never
left without an answer, and however it is answered it ends with a result
and a state that satisfy the postcondition.

`Runs` is a sequence of calls, each served to its end before the next.
`Simulates` is what one call has to keep for such a sequence to give the
answers of an abstract machine that computes them one by one (`replay`).
-/
import Berth.Interleave.Prog
import Mathlib.Data.List.Forall2

namespace Berth.Interleave

variable {S : Sig} {σ α β : Type}

/-- The answers an operation may get, and the state after each. -/
abbrev Handler (S : Sig) (σ : Type) : Type := (o : S.Op) → σ → S.Res o → σ → Prop

namespace Prog

/-! ## One program -/

/-- The program runs from `s` to `s'` and returns `a`. -/
inductive Served (H : Handler S σ) : Prog S α → σ → α → σ → Prop where
  | ret (a : α) (s : σ) : Served H (.ret a) s a s
  | op {o : S.Op} {k : S.Res o → Prog S α} {s s' s'' : σ} {r : S.Res o} {a : α}
      (h : H o s r s') (h' : Served H (k r) s' a s'') : Served H (.op o k) s a s''

/-- However it is answered, the program gets to an end in `Q`. -/
def Meets (H : Handler S σ) (Q : α → σ → Prop) : Prog S α → σ → Prop
  | .ret a, s => Q a s
  | .op o k, s => (∃ r s', H o s r s') ∧ ∀ r s', H o s r s' → (k r).Meets H Q s'

variable {H : Handler S σ} {Q : α → σ → Prop} {s s' : σ}

theorem Meets.exists_served {p : Prog S α} (h : p.Meets H Q s) :
    ∃ a s', p.Served H s a s' := by
  induction p generalizing s with
  | ret a => exact ⟨a, s, .ret a s⟩
  | op o k ih =>
    obtain ⟨⟨r, s', hr⟩, hk⟩ := h
    obtain ⟨a, s'', ha⟩ := ih r (hk r s' hr)
    exact ⟨a, s'', .op hr ha⟩

theorem Meets.of_served {p : Prog S α} {a : α} (h : p.Meets H Q s) (hp : p.Served H s a s') :
    Q a s' := by
  induction hp with
  | ret a s => exact h
  | op hr _ ih => exact ih (h.2 _ _ hr)

theorem Meets.bind {p : Prog S α} {f : α → Prog S β} {Q : β → σ → Prop}
    (h : p.Meets H (fun a => (f a).Meets H Q) s) : (p.bind f).Meets H Q s := by
  induction p generalizing s with
  | ret a => exact h
  | op o k ih => exact ⟨h.1, fun r s' hr => ih r (h.2 r s' hr)⟩

theorem Meets.mono {p : Prog S α} {Q' : α → σ → Prop} (h : p.Meets H Q s)
    (hQ : ∀ a s, Q a s → Q' a s) : p.Meets H Q' s := by
  induction p generalizing s with
  | ret a => exact hQ a s h
  | op o k ih => exact ⟨h.1, fun r s' hr => ih r (h.2 r s' hr)⟩

/-- An operation whose only answer is `r`. -/
theorem Meets.op {o : S.Op} {k : S.Res o → Prog S α} {r : S.Res o}
    (h : ∀ r' s'', H o s r' s'' ↔ r' = r ∧ s'' = s') (hk : (k r).Meets H Q s') :
    (Prog.op o k).Meets H Q s := by
  refine ⟨⟨r, s', (h r s').mpr ⟨rfl, rfl⟩⟩, fun r' s'' hr => ?_⟩
  obtain ⟨rfl, rfl⟩ := (h r' s'').mp hr
  exact hk

end Prog

/-! ## Calls, one after another -/

section Calls

variable {C O A τ : Type}

/-- The calls, made from `s` in this order, return these outcomes. -/
inductive Runs (call : C → σ → O → σ → Prop) : σ → List C → List O → Prop where
  | nil (s : σ) : Runs call s [] []
  | cons {c : C} {o : O} {s s' : σ} {cs : List C} {os : List O} (h : call c s o s')
      (h' : Runs call s' cs os) : Runs call s (c :: cs) (o :: os)

/-- The answers of a machine that computes them. -/
def replay (step : τ → C → A × τ) : τ → List C → List A
  | _, [] => []
  | t, c :: cs => (step t c).1 :: replay step (step t c).2 cs

/-- Every call satisfies `P` in the state the machine is in by then. -/
def Along (step : τ → C → A × τ) (P : τ → C → Prop) : τ → List C → Prop
  | _, [] => True
  | t, c :: cs => P t c ∧ Along step P (step t c).2 cs

/-- One call from states that correspond: it returns, what it returns is
what the machine answers, and the states after it correspond again. -/
structure Simulates (call : C → σ → O → σ → Prop) (step : τ → C → A × τ) (P : τ → C → Prop)
    (R : σ → τ → Prop) (M : A → O → Prop) : Prop where
  returns : ∀ {c s t}, P t c → R s t → ∃ o s', call c s o s'
  follows : ∀ {c s t o s'}, P t c → R s t → call c s o s' → M (step t c).1 o ∧ R s' (step t c).2

variable {call : C → σ → O → σ → Prop} {step : τ → C → A × τ} {P : τ → C → Prop}
  {R : σ → τ → Prop} {M : A → O → Prop} {s : σ} {t : τ} {cs : List C}

theorem Simulates.exists_runs (h : Simulates call step P R M) (hR : R s t)
    (hP : Along step P t cs) : ∃ os, Runs call s cs os := by
  induction cs generalizing s t with
  | nil => exact ⟨[], .nil s⟩
  | cons c cs ih =>
    obtain ⟨o, s', ho⟩ := h.returns hP.1 hR
    obtain ⟨os, hos⟩ := ih (h.follows hP.1 hR ho).2 hP.2
    exact ⟨o :: os, .cons ho hos⟩

theorem Simulates.forall₂ (h : Simulates call step P R M) (hR : R s t) (hP : Along step P t cs)
    {os : List O} (hruns : Runs call s cs os) : List.Forall₂ M (replay step t cs) os := by
  induction hruns generalizing t with
  | nil s => exact .nil
  | cons ho _ ih =>
    obtain ⟨hM, hR'⟩ := h.follows hP.1 hR ho
    exact .cons hM (ih hR' hP.2)

end Calls

end Berth.Interleave
