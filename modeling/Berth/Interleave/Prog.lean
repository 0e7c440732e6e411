/-
Berth.Interleave.Prog — programs that talk to shared state one
operation at a time.

A signature `Sig` lists the operations a program may perform and the
type of the answer to each. A `Prog S α` is either a finished program or
one operation together with what the program does with every possible
answer. Nothing is said here about what an operation does: that is the
job of a `Machine` (`Interleave/Pool.lean`), which runs many programs
side by side and lets any other program act between two operations of
one of them.

`Prog S` is a monad, so a model of sequential code is a `do` block whose
operations stand where the calls stand in the code.
-/

namespace Berth.Interleave

/-- An operation signature: the operations and the type of each answer. -/
structure Sig where
  Op : Type
  Res : Op → Type

/-- A program over `S`: finished, or one operation and a continuation. -/
inductive Prog (S : Sig) (α : Type) : Type where
  | ret (a : α)
  | op (o : S.Op) (k : S.Res o → Prog S α)

namespace Prog

variable {S : Sig} {α β γ : Type}
variable {p : Prog S α} {a : α} {o : S.Op} {k : S.Res o → Prog S α} {f : α → Prog S β}

/-- Sequencing: run `p`, then continue with its result. -/
def bind : Prog S α → (α → Prog S β) → Prog S β
  | .ret a, f => f a
  | .op o k, f => .op o (fun r => (k r).bind f)

/-- The program that performs one operation and returns its answer. -/
def perform (o : S.Op) : Prog S (S.Res o) := .op o .ret

instance : Monad (Prog S) where
  pure := .ret
  bind := bind

/-- The result of a finished program. -/
def result? : Prog S α → Option α
  | .ret a => some a
  | .op _ _ => none

@[simp] theorem pure_eq_ret (a : α) : (pure a : Prog S α) = .ret a := rfl

@[simp] theorem monad_bind_eq (p : Prog S α) (f : α → Prog S β) : p >>= f = p.bind f := rfl

@[simp] theorem ret_bind (a : α) (f : α → Prog S β) : (Prog.ret a).bind f = f a := rfl

@[simp] theorem op_bind (o : S.Op) (k : S.Res o → Prog S α) (f : α → Prog S β) :
    (Prog.op o k).bind f = .op o (fun r => (k r).bind f) := rfl

@[simp] theorem perform_bind (o : S.Op) (f : S.Res o → Prog S β) :
    (perform o).bind f = .op o f := rfl

theorem bind_ret (p : Prog S α) : p.bind .ret = p := by
  induction p with
  | ret a => rfl
  | op o k ih => simp [ih]

@[simp] theorem result?_ret (a : α) : (Prog.ret a : Prog S α).result? = some a := rfl

@[simp] theorem result?_op (o : S.Op) (k : S.Res o → Prog S α) :
    (Prog.op o k).result? = none := rfl

theorem eq_ret_of_result? (h : p.result? = some a) : p = .ret a := by
  cases p with
  | ret b => simp only [result?_ret, Option.some.injEq] at h; rw [h]
  | op o k => simp at h

/-- Every operation the program may perform satisfies `P`. -/
def Only (P : S.Op → Prop) : Prog S α → Prop
  | .ret _ => True
  | .op o k => P o ∧ ∀ r, (k r).Only P

variable {P : S.Op → Prop}

@[simp] theorem only_ret (a : α) : (Prog.ret a : Prog S α).Only P := trivial

@[simp] theorem only_op :
    (Prog.op o k).Only P ↔ P o ∧ ∀ r, (k r).Only P := Iff.rfl

@[simp] theorem only_perform : (perform o : Prog S (S.Res o)).Only P ↔ P o :=
  ⟨fun h => h.1, fun h => ⟨h, fun _ => trivial⟩⟩

theorem Only.mono {Q : S.Op → Prop} (hp : p.Only P) (h : ∀ o, P o → Q o) :
    p.Only Q := by
  induction p with
  | ret a => trivial
  | op o k ih => exact ⟨h o hp.1, fun r => ih r (hp.2 r)⟩

/-- A program that begins with one operation. -/
theorem Only.perform (ho : P o) (hk : ∀ r, (k r).Only P) :
    ((perform o).bind k).Only P := ⟨ho, hk⟩

theorem Only.bind (hp : p.Only P) (hf : ∀ a, (f a).Only P) :
    (p.bind f).Only P := by
  induction p with
  | ret a => exact hf a
  | op o k ih => exact ⟨hp.1, fun r => ih r (hp.2 r)⟩

/-- Every operation the program may perform satisfies `P`, and what it
returns satisfies `Q`. -/
def Ends (P : S.Op → Prop) (Q : α → Prop) : Prog S α → Prop
  | .ret a => Q a
  | .op o k => P o ∧ ∀ r, (k r).Ends P Q

theorem Ends.only {Q : α → Prop} (h : p.Ends P Q) : p.Only P := by
  induction p with
  | ret a => trivial
  | op o k ih => exact ⟨h.1, fun r => ih r (h.2 r)⟩

theorem Ends.bind {Q : α → Prop} {R : β → Prop} (hp : p.Ends P Q) (hf : ∀ a, Q a → (f a).Ends P R) :
    (p.bind f).Ends P R := by
  induction p with
  | ret a => exact hf a hp
  | op o k ih => exact ⟨hp.1, fun r => ih r (hp.2 r)⟩

/-- After a program of which only the operations matter. -/
theorem Only.ends {R : β → Prop} (hp : p.Only P) (hf : ∀ a, (f a).Ends P R) :
    (p.bind f).Ends P R := by
  induction p with
  | ret a => exact hf a
  | op o k ih => exact ⟨hp.1, fun r => ih r (hp.2 r)⟩

end Prog

/-- An operation and the answer it got. -/
abbrev Event (S : Sig) : Type := (o : S.Op) × S.Res o

namespace Prog

variable {S : Sig} {α β : Type}
variable {p : Prog S α} {f : α → Prog S β} {evs : List (Event S)} {a : α} {o : S.Op}
variable {k : S.Res o → Prog S α}

/-- With these answers, in this order, the program returns `a`. -/
inductive Ran : Prog S α → List (Event S) → α → Prop where
  | ret (a : α) : Ran (.ret a) [] a
  | op {o : S.Op} {k : S.Res o → Prog S α} {r : S.Res o} {evs : List (Event S)} {a : α}
      (h : Ran (k r) evs a) : Ran (.op o k) (⟨o, r⟩ :: evs) a

/-- A finished program asks nothing. -/
theorem Ran.of_ret {a b : α} (h : Ran (.ret a : Prog S α) evs b) :
    evs = [] ∧ a = b := by
  cases h
  exact ⟨rfl, rfl⟩

/-- The answers decide what is returned. -/
theorem Ran.unique {a b : α} (h : Ran p evs a) (h' : Ran p evs b) : a = b := by
  induction h with
  | ret a => exact h'.of_ret.2
  | op _ ih =>
    cases h' with
    | op h' => exact ih h'

theorem Ran.bind {evs evs' : List (Event S)} {b : β} (hp : Ran p evs a) (hf : Ran (f a) evs' b) :
    Ran (p.bind f) (evs ++ evs') b := by
  induction hp with
  | ret a => exact hf
  | op _ ih => exact .op (ih hf)

/-- A run of a sequence is a run of its first part and one of the rest. -/
theorem Ran.of_bind {b : β} (h : Ran (p.bind f) evs b) :
    ∃ evs₁ evs₂ a, evs = evs₁ ++ evs₂ ∧ Ran p evs₁ a ∧ Ran (f a) evs₂ b := by
  induction p generalizing evs with
  | ret a => exact ⟨[], evs, a, rfl, .ret a, h⟩
  | op o k ih =>
    cases h with
    | @op _ _ r evs _ h =>
      obtain ⟨evs₁, evs₂, a, rfl, hp, hf⟩ := ih r h
      exact ⟨⟨o, r⟩ :: evs₁, evs₂, a, rfl, .op hp, hf⟩

/-- A run that begins with one operation. -/
theorem Ran.of_perform (h : Ran ((perform o).bind k) evs a) :
    ∃ r evs', evs = ⟨o, r⟩ :: evs' ∧ Ran (k r) evs' a := by
  cases h with
  | @op _ _ r evs' _ h => exact ⟨r, evs', rfl, h⟩

theorem Only.ran {P : S.Op → Prop} (hp : p.Only P) (h : Ran p evs a) : ∀ e ∈ evs, P e.1 := by
  induction h with
  | ret a => exact fun _ he => nomatch he
  | op h ih =>
    intro e he
    rcases List.mem_cons.mp he with rfl | he
    · exact hp.1
    · exact ih (hp.2 _) e he

/-- As long as the answers satisfy `Q`, every operation satisfies `P`. -/
def Given (Q : Event S → Prop) (P : S.Op → Prop) : Prog S α → Prop
  | .ret _ => True
  | .op o k => P o ∧ ∀ r, Q ⟨o, r⟩ → (k r).Given Q P

section Given

variable {Q : Event S → Prop} {P : S.Op → Prop}

@[simp] theorem given_ret (a : α) : (Prog.ret a : Prog S α).Given Q P := trivial

@[simp] theorem given_op :
    (Prog.op o k).Given Q P ↔ P o ∧ ∀ r, Q ⟨o, r⟩ → (k r).Given Q P := Iff.rfl

/-- A program that begins with one operation. -/
theorem Given.perform (ho : P o) (hk : ∀ r, Q ⟨o, r⟩ → (k r).Given Q P) :
    ((perform o).bind k).Given Q P := ⟨ho, hk⟩

theorem Given.bind (hp : p.Given Q P) (hf : ∀ a, (f a).Given Q P) : (p.bind f).Given Q P := by
  induction p with
  | ret a => exact hf a
  | op o k ih => exact ⟨hp.1, fun r hr => ih r (hp.2 r hr)⟩

theorem Given.ran (hp : p.Given Q P) (h : Ran p evs a) (hQ : ∀ e ∈ evs, Q e) :
    ∀ e ∈ evs, P e.1 := by
  induction h with
  | ret a => exact fun _ he => nomatch he
  | op h ih =>
    intro e he
    rcases List.mem_cons.mp he with rfl | he
    · exact hp.1
    · exact ih (hp.2 _ (hQ _ List.mem_cons_self)) (fun x hx => hQ x (List.mem_cons_of_mem _ hx)) e he

end Given

/-- With some answers that satisfy `Q` the program returns the value. -/
def Yields (Q : Event S → Prop) : Prog S α → α → Prop
  | .ret a, b => a = b
  | .op o k, b => ∃ r, Q ⟨o, r⟩ ∧ (k r).Yields Q b

theorem yields_perform {Q : Event S → Prop} :
    ((perform o).bind k).Yields Q a ↔ ∃ r, Q ⟨o, r⟩ ∧ (k r).Yields Q a := Iff.rfl

theorem yields_iff {Q : Event S → Prop} :
    p.Yields Q a ↔ ∃ evs, Ran p evs a ∧ ∀ e ∈ evs, Q e := by
  induction p with
  | ret b =>
    constructor
    · rintro rfl
      exact ⟨[], .ret b, fun _ h => nomatch h⟩
    · rintro ⟨evs, h, -⟩
      exact h.of_ret.2
  | op o k ih =>
    constructor
    · rintro ⟨r, hr, hk⟩
      obtain ⟨evs, hran, hevs⟩ := (ih r).mp hk
      exact ⟨⟨o, r⟩ :: evs, .op hran, List.forall_mem_cons.mpr ⟨hr, hevs⟩⟩
    · rintro ⟨evs, h, hevs⟩
      cases h with
      | op h =>
        obtain ⟨hr, hrest⟩ := List.forall_mem_cons.mp hevs
        exact ⟨_, hr, (ih _).mpr ⟨_, h, hrest⟩⟩

/-- Run the program on given events; it has to ask for exactly these. -/
def feed [DecidableEq S.Op] : Prog S α → List (Event S) → Option α
  | .ret a, [] => some a
  | .op o k, ⟨o', r⟩ :: evs => if h : o' = o then (k (h ▸ r)).feed evs else none
  | _, _ => none

theorem ran_of_feed [DecidableEq S.Op] (h : p.feed evs = some a) : p.Ran evs a := by
  induction p generalizing evs with
  | ret b =>
    cases evs with
    | nil =>
      cases h
      exact .ret _
    | cons e evs => cases h
  | op o k ih =>
    cases evs with
    | nil => cases h
    | cons e evs =>
      obtain ⟨o', r⟩ := e
      unfold feed at h
      split at h
      · next heq =>
        subst heq
        exact .op (ih r h)
      · cases h

end Prog

end Berth.Interleave
