/-
Berth.Interleave.Pool — any number of programs over one shared state.

A `Machine` gives operations their meaning: `exec i ch o l s` is what
happens when thread `i`, whose bookkeeping is `l`, performs `o` in the
shared state `s` and the scheduler decides `ch` wherever the outcome is
open (a clock reading, a fault, an enumeration order). `start` is what a
new call sees and changes when it enters, `env` what happens without any
thread (time passing, a foreign writer).

A `Pool` is a shared state and the threads started so far. One `Action`
is one atomic step; between two operations of a thread any number of
actions of others may happen, so the runs of a pool are exactly the
interleavings. A thread that has returned stays in the pool with its
result, and a thread that is never scheduled again is one whose caller
crashed or whose request was lost.
-/
import Berth.Interleave.Prog
import Mathlib.Logic.Relation

namespace Berth.Interleave

/-- The meaning of a signature's operations over a shared state. -/
structure Machine (S : Sig) where
  /-- What a caller asks for. -/
  Call : Type
  /-- What a call returns. -/
  Out : Type
  /-- Bookkeeping that belongs to one thread. -/
  Loc : Type
  /-- The state all threads share. -/
  State : Type
  /-- The scheduler's decisions inside one operation. -/
  Choice : Type
  /-- Steps that belong to no thread. -/
  Env : Type
  prog : Call → Prog S Out
  start : Nat → Call → State → Option (Loc × State)
  exec : Nat → Choice → (o : S.Op) → Loc → State → Option (S.Res o × Loc × State)
  env : Env → State → Option State

/-- A call in progress (or finished): its request, bookkeeping and the
rest of its program. -/
structure Thread {S : Sig} (M : Machine S) where
  call : M.Call
  loc : M.Loc
  prog : Prog S M.Out

/-- The shared state and every thread started so far, by thread number. -/
structure Pool {S : Sig} (M : Machine S) where
  shared : M.State
  threads : List (Thread M)

/-- One atomic step of a pool. -/
inductive Action {S : Sig} (M : Machine S) where
  | spawn (c : M.Call)
  | exec (i : Nat) (ch : M.Choice)
  | env (e : M.Env)

/-- An element of a list with one more at its end. -/
theorem getElem?_concat_cases {α : Type*} {l : List α} {a b : α} {i : Nat}
    (h : (l ++ [a])[i]? = some b) : i < l.length ∧ l[i]? = some b ∨ i = l.length ∧ b = a := by
  by_cases hi : i < l.length
  · rw [List.getElem?_append_left hi] at h
    exact .inl ⟨hi, h⟩
  rw [List.getElem?_append_right (Nat.le_of_not_lt hi), List.getElem?_singleton] at h
  split at h
  · cases h
    exact .inr ⟨by omega, rfl⟩
  · cases h

namespace Pool

variable {S : Sig} {M : Machine S}
variable {p q : Pool M}

/-- Let thread `t`, numbered `i`, perform its next operation. -/
def execThread (p : Pool M) (i : Nat) (ch : M.Choice) (t : Thread M) : Option (Pool M) :=
  match t.prog with
  | .ret _ => none
  | .op o k =>
    (M.exec i ch o t.loc p.shared).map fun x =>
      { shared := x.2.2
        threads := p.threads.set i { call := t.call, loc := x.2.1, prog := k x.1 } }

/-- One step of the pool, when it is enabled. -/
def step (p : Pool M) : Action M → Option (Pool M)
  | .spawn c =>
    (M.start p.threads.length c p.shared).map fun x =>
      { shared := x.2
        threads := p.threads ++ [{ call := c, loc := x.1, prog := M.prog c }] }
  | .exec i ch => p.threads[i]?.bind (p.execThread i ch)
  | .env e => (M.env e p.shared).map fun s => { p with shared := s }

/-- Run a list of actions. -/
def run (p : Pool M) : List (Action M) → Option (Pool M)
  | [] => some p
  | a :: as => (p.step a).bind fun q => q.run as

/-- `q` follows from `p` by one action. -/
def Step (p q : Pool M) : Prop := ∃ a, p.step a = some q

/-- `q` follows from `p` by finitely many actions. -/
def Reaches (p q : Pool M) : Prop := Relation.ReflTransGen Step p q

/-- The pool in which nothing has been started yet. -/
def empty (s : M.State) : Pool M := { shared := s, threads := [] }

@[simp] theorem empty_shared (s : M.State) : (empty s : Pool M).shared = s := rfl

@[simp] theorem empty_threads (s : M.State) : (empty s : Pool M).threads = [] := rfl

theorem reaches_of_run {as : List (Action M)} (h : p.run as = some q) :
    p.Reaches q := by
  induction as generalizing p with
  | nil =>
    simp only [run, Option.some.injEq] at h
    rw [h]
    exact Relation.ReflTransGen.refl
  | cons a as ih =>
    simp only [run, Option.bind_eq_some_iff] at h
    obtain ⟨q', hstep, hrun⟩ := h
    exact Relation.ReflTransGen.head ⟨a, hstep⟩ (ih hrun)

/-- The pool after an enabled list of actions. -/
def after (p : Pool M) (as : List (Action M)) (h : (p.run as).isSome = true) : Pool M :=
  (p.run as).get h

theorem reaches_after {p : Pool M} {as : List (Action M)} (h : (p.run as).isSome = true) :
    p.Reaches (p.after as h) :=
  reaches_of_run (Option.some_get h).symm

/-! ## Scripts -/

/-- A line of a script: one action, or a thread that goes on for so many
operations. -/
inductive Cue (M : Machine S) where
  | act (a : Action M)
  | go (i n : Nat)

/-- Thread `i` performs its next operation, with the decision that
`choose` makes. -/
def goOn (choose : M.Loc → M.State → S.Op → M.Choice) (p : Pool M) (i : Nat) : Option (Pool M) :=
  p.threads[i]?.bind fun t =>
    match t.prog with
    | .ret _ => none
    | .op o _ => p.step (.exec i (choose t.loc p.shared o))

def goFor (choose : M.Loc → M.State → S.Op → M.Choice) (i : Nat) :
    Nat → Pool M → Option (Pool M)
  | 0, p => some p
  | n + 1, p => (p.goOn choose i).bind (goFor choose i n)

/-- Play one line. -/
def cue (choose : M.Loc → M.State → S.Op → M.Choice) (p : Pool M) : Cue M → Option (Pool M)
  | .act a => p.step a
  | .go i n => goFor choose i n p

/-- Play a script. -/
def play (choose : M.Loc → M.State → S.Op → M.Choice) (p : Pool M) : List (Cue M) → Option (Pool M)
  | [] => some p
  | c :: cs => (p.cue choose c).bind fun q => q.play choose cs

variable {choose : M.Loc → M.State → S.Op → M.Choice}

theorem step_of_goOn {i : Nat} (h : p.goOn choose i = some q) : p.Step q := by
  simp only [goOn, Option.bind_eq_some_iff] at h
  obtain ⟨t, _, h⟩ := h
  split at h
  · cases h
  · exact ⟨_, h⟩

theorem reaches_of_goFor {i n : Nat} (h : goFor choose i n p = some q) :
    p.Reaches q := by
  induction n generalizing p with
  | zero =>
    simp only [goFor, Option.some.injEq] at h
    rw [h]
    exact Relation.ReflTransGen.refl
  | succ n ih =>
    simp only [goFor, Option.bind_eq_some_iff] at h
    obtain ⟨p', hstep, hrest⟩ := h
    exact Relation.ReflTransGen.head (step_of_goOn hstep) (ih hrest)

theorem reaches_of_cue {c : Cue M} (h : p.cue choose c = some q) : p.Reaches q := by
  cases c with
  | act a => exact Relation.ReflTransGen.single ⟨a, h⟩
  | go i n => exact reaches_of_goFor h

theorem reaches_of_play {cs : List (Cue M)} (h : p.play choose cs = some q) :
    p.Reaches q := by
  induction cs generalizing p with
  | nil =>
    simp only [play, Option.some.injEq] at h
    rw [h]
    exact Relation.ReflTransGen.refl
  | cons c cs ih =>
    simp only [play, Option.bind_eq_some_iff] at h
    obtain ⟨p', hcue, hrest⟩ := h
    exact (reaches_of_cue hcue).trans (ih hrest)

/-- The pool after a script that can be played. -/
def played (choose : M.Loc → M.State → S.Op → M.Choice) (p : Pool M) (cs : List (Cue M))
    (h : (p.play choose cs).isSome = true) : Pool M := (p.play choose cs).get h

theorem reaches_played {p : Pool M} {cs : List (Cue M)} (h : (p.play choose cs).isSome = true) :
    p.Reaches (p.played choose cs h) :=
  reaches_of_play (Option.some_get h).symm

/-! ## What a step does -/

theorem step_spawn {c : M.Call} (h : p.step (.spawn c) = some q) :
    ∃ l s, M.start p.threads.length c p.shared = some (l, s) ∧
      q = { shared := s
            threads := p.threads ++ [{ call := c, loc := l, prog := M.prog c }] } := by
  simp only [step, Option.map_eq_some_iff] at h
  obtain ⟨⟨l, s⟩, hst, rfl⟩ := h
  exact ⟨l, s, hst, rfl⟩

theorem step_exec {i : Nat} {ch : M.Choice} (h : p.step (.exec i ch) = some q) :
    ∃ t o k r l s, p.threads[i]? = some t ∧ t.prog = .op o k ∧
      M.exec i ch o t.loc p.shared = some (r, l, s) ∧
      q = { shared := s
            threads := p.threads.set i { call := t.call, loc := l, prog := k r } } := by
  simp only [step, Option.bind_eq_some_iff] at h
  obtain ⟨t, ht, he⟩ := h
  unfold execThread at he
  cases hp : t.prog with
  | ret a => simp [hp] at he
  | op o k =>
    simp only [hp, Option.map_eq_some_iff] at he
    obtain ⟨⟨r, l, s⟩, hex, rfl⟩ := he
    exact ⟨t, o, k, r, l, s, ht, hp, hex, rfl⟩

theorem step_env {e : M.Env} (h : p.step (.env e) = some q) :
    ∃ s, M.env e p.shared = some s ∧ q = { p with shared := s } := by
  simp only [step, Option.map_eq_some_iff] at h
  obtain ⟨s, hs, rfl⟩ := h
  exact ⟨s, hs, rfl⟩

/-- Everything one step can do. -/
theorem step_cases (h : p.Step q) :
    (∃ c l s, M.start p.threads.length c p.shared = some (l, s) ∧
      q = { shared := s, threads := p.threads ++ [{ call := c, loc := l, prog := M.prog c }] }) ∨
    (∃ i ch t o k r l s, p.threads[i]? = some t ∧ t.prog = .op o k ∧
      M.exec i ch o t.loc p.shared = some (r, l, s) ∧
      q = { shared := s, threads := p.threads.set i { call := t.call, loc := l, prog := k r } }) ∨
    (∃ e s, M.env e p.shared = some s ∧ q = { p with shared := s }) := by
  obtain ⟨a, ha⟩ := h
  cases a with
  | spawn c => exact .inl ⟨c, step_spawn ha⟩
  | exec i ch => exact .inr (.inl ⟨i, ch, step_exec ha⟩)
  | env e => exact .inr (.inr ⟨e, step_env ha⟩)

/-! ## Threads over time -/

/-- The calls started so far, by thread number. -/
def calls (p : Pool M) : List M.Call := p.threads.map Thread.call

/-- Updating a thread without changing its call. -/
theorem map_call_set {ts : List (Thread M)} {i : Nat} {t u : Thread M} (ht : ts[i]? = some t)
    (hu : u.call = t.call) : (ts.set i u).map Thread.call = ts.map Thread.call := by
  obtain ⟨hlt, rfl⟩ := List.getElem?_eq_some_iff.mp ht
  rw [List.map_set, hu]
  apply List.ext_getElem
  · simp
  · intro n h₁ h₂
    by_cases hn : i = n
    · subst hn
      simp
    · simp [List.getElem_set_ne hn]

/-- A step starts at most the call it names. -/
theorem mem_calls_step {a : Action M} (h : p.step a = some q) {c : M.Call} (hc : c ∈ q.calls) :
    c ∈ p.calls ∨ a = .spawn c := by
  unfold calls at *
  cases a with
  | spawn c' =>
    obtain ⟨l, s, _, rfl⟩ := step_spawn h
    simp only [List.map_append, List.mem_append, List.map_cons, List.map_nil,
      List.mem_singleton] at hc
    rcases hc with hc | rfl
    · exact .inl hc
    · exact .inr rfl
  | exec i ch =>
    obtain ⟨t, o, k, r, l, s, ht, _, _, rfl⟩ := step_exec h
    have heq := map_call_set (u := ⟨t.call, l, k r⟩) ht rfl
    exact .inl (heq ▸ hc)
  | env e =>
    obtain ⟨s, _, rfl⟩ := step_env h
    exact .inl hc

/-- No call is forgotten. -/
theorem calls_subset_step {a : Action M} (h : p.step a = some q) :
    p.calls ⊆ q.calls := by
  unfold calls
  cases a with
  | spawn c =>
    obtain ⟨l, s, _, rfl⟩ := step_spawn h
    intro c' hc'
    simp only [List.map_append, List.mem_append]
    exact .inl hc'
  | exec i ch =>
    obtain ⟨t, o, k, r, l, s, ht, _, _, rfl⟩ := step_exec h
    have heq := map_call_set (u := ⟨t.call, l, k r⟩) ht rfl
    intro c' hc'
    exact heq.symm ▸ hc'
  | env e =>
    obtain ⟨s, _, rfl⟩ := step_env h
    exact List.Subset.refl _

/-- No thread goes. -/
theorem threads_length_step {a : Action M} (h : p.step a = some q) :
    p.threads.length ≤ q.threads.length := by
  cases a with
  | spawn c =>
    obtain ⟨l, s, _, rfl⟩ := step_spawn h
    simp
  | exec i ch =>
    obtain ⟨t, o, k, r, l, s, _, _, _, rfl⟩ := step_exec h
    simp
  | env e =>
    obtain ⟨s, _, rfl⟩ := step_env h
    exact Nat.le_refl _

/-- A thread keeps its number, its call and whatever of its bookkeeping no
operation changes. -/
theorem Reaches.thread {β : Type} {f : M.Loc → β}
    (hf : ∀ {i ch o l s r l' s'}, M.exec i ch o l s = some (r, l', s') → f l' = f l)
    (h : p.Reaches q) {i : Nat} {t : Thread M} (ht : p.threads[i]? = some t) :
    ∃ t', q.threads[i]? = some t' ∧ t'.call = t.call ∧ f t'.loc = f t.loc := by
  induction h with
  | refl => exact ⟨t, ht, rfl, rfl⟩
  | tail _ hs ih =>
    obtain ⟨u, hu, hcall, hloc⟩ := ih
    obtain ⟨c, l, s, _, rfl⟩ | ⟨j, ch, v, o, k, r, l, s, hv, _, hex, rfl⟩ | ⟨e, s, _, rfl⟩ :=
      step_cases hs
    · have hlt := (List.getElem?_eq_some_iff.mp hu).1
      exact ⟨u, by rw [List.getElem?_append_left hlt]; exact hu, hcall, hloc⟩
    · by_cases hij : j = i
      · subst hij
        rw [hu] at hv
        cases hv
        have hlt := (List.getElem?_eq_some_iff.mp hu).1
        exact ⟨_, List.getElem?_set_self hlt, hcall, (hf hex).trans hloc⟩
      · exact ⟨u, by rw [List.getElem?_set_ne hij]; exact hu, hcall, hloc⟩
    · exact ⟨u, hu, hcall, hloc⟩

end Pool

end Berth.Interleave
