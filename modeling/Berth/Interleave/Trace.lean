/-
Berth.Interleave.Trace — runs of a pool with everything that happened in
them.

A `Moment` is one operation of one thread: what it asked, what it was
told, and the shared state before and after. `Pool.Run p ms q` is a run
from `p` to `q` with its moments `ms`, oldest first.

Two views of the same list are what proofs use. `Follows i p ms p'`: the
moments of thread `i` take program `p` to `p'`, with any moments of
others in between, so a proof can walk along the text of `p`. `Linked R`:
from one moment to the next the state only changes by `R`, what time and
arriving calls do.
-/
import Berth.Interleave.Pool

namespace Berth.Interleave

variable {S : Sig} {M : Machine S} {α β : Type}

/-- One operation of one thread. -/
structure Moment (M : Machine S) where
  tid : Nat
  event : Event S
  before : M.State
  after : M.State

/-! ## Runs -/

namespace Pool

/-- A run and its moments. -/
inductive Run (p : Pool M) : List (Moment M) → Pool M → Prop where
  | refl : Run p [] p
  | spawn {ms : List (Moment M)} {q q' : Pool M} {c : M.Call} (h : Run p ms q)
      (hs : q.step (.spawn c) = some q') : Run p ms q'
  | env {ms : List (Moment M)} {q q' : Pool M} {e : M.Env} (h : Run p ms q)
      (hs : q.step (.env e) = some q') : Run p ms q'
  | exec {ms : List (Moment M)} {q : Pool M} {i : Nat} {ch : M.Choice} {t : Thread M} {o : S.Op}
      {k : S.Res o → Prog S M.Out} {r : S.Res o} {l : M.Loc} {s : M.State} (h : Run p ms q)
      (ht : q.threads[i]? = some t) (hp : t.prog = .op o k)
      (hex : M.exec i ch o t.loc q.shared = some (r, l, s)) :
      Run p (ms ++ [⟨i, ⟨o, r⟩, q.shared, s⟩])
        { shared := s, threads := q.threads.set i { call := t.call, loc := l, prog := k r } }

theorem Run.trans {p q q' : Pool M} {ms ms' : List (Moment M)} (h : Run p ms q)
    (h' : Run q ms' q') : Run p (ms ++ ms') q' := by
  induction h' with
  | refl => rw [List.append_nil]; exact h
  | spawn _ hs ih => exact .spawn ih hs
  | env _ hs ih => exact .env ih hs
  | exec _ ht hp hex ih =>
    rw [← List.append_assoc]
    exact .exec ih ht hp hex

/-- The moment an action adds to a run. -/
def momentOf (p : Pool M) : Action M → List (Moment M)
  | .exec i ch =>
    match p.threads[i]? with
    | some t =>
      match t.prog with
      | .op o _ =>
        match M.exec i ch o t.loc p.shared with
        | some (r, _, s) => [⟨i, ⟨o, r⟩, p.shared, s⟩]
        | none => []
      | .ret _ => []
    | none => []
  | _ => []

/-- Perform a list of actions and keep the moments. -/
def record (p : Pool M) : List (Action M) → Option (List (Moment M) × Pool M)
  | [] => some ([], p)
  | a :: as => (p.step a).bind fun q => (q.record as).map fun x => (p.momentOf a ++ x.1, x.2)

theorem run_of_step {p q : Pool M} {a : Action M} (h : p.step a = some q) :
    Run p (p.momentOf a) q := by
  cases a with
  | spawn c => exact .spawn .refl h
  | env e => exact .env .refl h
  | exec i ch =>
    obtain ⟨t, o, k, r, l, s, ht, hp, hex, rfl⟩ := step_exec h
    have hm : p.momentOf (.exec i ch) = [⟨i, ⟨o, r⟩, p.shared, s⟩] := by
      simp only [momentOf, ht, hp, hex]
    rw [hm]
    exact .exec .refl ht hp hex

theorem run_of_record {p q : Pool M} {as : List (Action M)} {ms : List (Moment M)}
    (h : p.record as = some (ms, q)) : Run p ms q := by
  induction as generalizing p ms with
  | nil =>
    simp only [record, Option.some.injEq, Prod.mk.injEq] at h
    obtain ⟨rfl, rfl⟩ := h
    exact .refl
  | cons a as ih =>
    simp only [record, Option.bind_eq_some_iff, Option.map_eq_some_iff] at h
    obtain ⟨p', hstep, ⟨ms', q'⟩, hrest, heq⟩ := h
    simp only [Prod.mk.injEq] at heq
    obtain ⟨rfl, rfl⟩ := heq
    exact (run_of_step hstep).trans (ih hrest)

/-- A run that can be recorded, with its moments. -/
def recorded (p : Pool M) (as : List (Action M)) (h : (p.record as).isSome = true) :
    List (Moment M) × Pool M := (p.record as).get h

theorem run_recorded {p : Pool M} {as : List (Action M)} (h : (p.record as).isSome = true) :
    Run p (p.recorded as h).1 (p.recorded as h).2 :=
  run_of_record (Option.some_get h).symm

/-- Every moment is an operation of the machine. -/
theorem Run.exec_of_mem {p q : Pool M} {ms : List (Moment M)} {m : Moment M} (h : Run p ms q)
    (hm : m ∈ ms) :
    ∃ ch l l', M.exec m.tid ch m.event.1 l m.before = some (m.event.2, l', m.after) := by
  induction h with
  | refl => cases hm
  | spawn _ _ ih => exact ih hm
  | env _ _ ih => exact ih hm
  | exec _ ht hp hex ih =>
    rcases List.mem_append.mp hm with hm | hm
    · exact ih hm
    · cases List.mem_singleton.mp hm
      exact ⟨_, _, _, hex⟩

end Pool

/-! ## One thread in a run -/

/-- What thread `i` asked and was told. -/
def events (i : Nat) (ms : List (Moment M)) : List (Event S) :=
  ms.filterMap fun m => if m.tid = i then some m.event else none

section Events

variable {i : Nat} {ms ms' : List (Moment M)} {m : Moment M} {x : Event S}

@[simp] theorem events_nil : events i ([] : List (Moment M)) = [] := rfl

@[simp] theorem events_append : events i (ms ++ ms') = events i ms ++ events i ms' :=
  List.filterMap_append

theorem events_cons_own (h : m.tid = i) : events i (m :: ms) = m.event :: events i ms :=
  List.filterMap_cons_some (if_pos h)

theorem events_others (h : ∀ m ∈ ms, m.tid ≠ i) : events i ms = [] := by
  unfold events
  rw [List.filterMap_eq_nil_iff]
  intro m hm
  rw [if_neg (h m hm)]

theorem mem_events : x ∈ events i ms ↔ ∃ m ∈ ms, m.tid = i ∧ m.event = x := by
  simp only [events, List.mem_filterMap, Option.ite_none_right_eq_some, Option.some.injEq]

end Events

/-- The moments of thread `i` among `ms` take program `p` to `p'`. -/
inductive Follows (i : Nat) : Prog S α → List (Moment M) → Prog S α → Prop where
  | nil (p : Prog S α) : Follows i p [] p
  | other {p p' : Prog S α} {m : Moment M} {ms : List (Moment M)} (hm : m.tid ≠ i)
      (h : Follows i p ms p') : Follows i p (m :: ms) p'
  | own {o : S.Op} {k : S.Res o → Prog S α} {r : S.Res o} {p' : Prog S α} {s s' : M.State}
      {ms : List (Moment M)} (h : Follows i (k r) ms p') :
      Follows i (.op o k) (⟨i, ⟨o, r⟩, s, s'⟩ :: ms) p'

namespace Follows

variable {i : Nat} {p p' : Prog S α} {ms : List (Moment M)} {m : Moment M}

theorem snoc_other (h : Follows i p ms p') (hm : m.tid ≠ i) : Follows i p (ms ++ [m]) p' := by
  induction h with
  | nil p => exact .other hm (.nil p)
  | other hm' _ ih => exact .other hm' ih
  | own _ ih => exact .own ih

theorem snoc_own {o : S.Op} {k : S.Res o → Prog S α} {r : S.Res o} {s s' : M.State}
    (h : Follows i p ms (.op o k)) : Follows i p (ms ++ [⟨i, ⟨o, r⟩, s, s'⟩]) (k r) := by
  generalize hp' : Prog.op o k = q at h
  induction h with
  | nil p => subst hp'; exact .own (.nil _)
  | other hm' _ ih => exact .other hm' (ih hp')
  | own _ ih => exact .own (ih hp')

theorem append_others {ms' : List (Moment M)} (h : Follows i p ms p')
    (hms : ∀ m ∈ ms', m.tid ≠ i) : Follows i p (ms ++ ms') p' := by
  induction ms' generalizing ms with
  | nil => rwa [List.append_nil]
  | cons m ms' ih =>
    obtain ⟨hm, hms⟩ := List.forall_mem_cons.mp hms
    rw [List.append_cons]
    exact ih (h.snoc_other hm) hms

theorem of_others (p : Prog S α) (h : ∀ m ∈ ms, m.tid ≠ i) : Follows i p ms p := by
  induction ms with
  | nil => exact .nil p
  | cons m ms ih =>
    obtain ⟨hm, hms⟩ := List.forall_mem_cons.mp h
    exact .other hm (ih hms)

theorem own_after {o : S.Op} {k : S.Res o → Prog S α} {r : S.Res o} {s s' : M.State}
    {pre : List (Moment M)} (hpre : ∀ m ∈ pre, m.tid ≠ i) (h : Follows i (k r) ms p') :
    Follows i (.op o k) (pre ++ ⟨i, ⟨o, r⟩, s, s'⟩ :: ms) p' := by
  induction pre with
  | nil => exact .own h
  | cons m pre ih =>
    obtain ⟨hm, hpre⟩ := List.forall_mem_cons.mp hpre
    exact .other hm (ih hpre)

/-- A finished program does nothing more. -/
theorem of_ret {a : α} (h : Follows i (.ret a) ms p') : p' = .ret a ∧ ∀ m ∈ ms, m.tid ≠ i := by
  generalize hp : (Prog.ret a : Prog S α) = p at h
  induction h with
  | nil p => exact ⟨rfl, List.forall_mem_nil _⟩
  | other hm _ ih =>
    obtain ⟨hp', hms⟩ := ih hp
    exact ⟨hp', List.forall_mem_cons.mpr ⟨hm, hms⟩⟩
  | own _ _ => cases hp

/-- A program that begins with an operation stands there still, or has
performed it. -/
theorem of_op {o : S.Op} {k : S.Res o → Prog S α} (h : Follows i (.op o k) ms p') :
    (p' = .op o k ∧ ∀ m ∈ ms, m.tid ≠ i) ∨
      ∃ pre r s s' post, ms = pre ++ ⟨i, ⟨o, r⟩, s, s'⟩ :: post ∧ (∀ m ∈ pre, m.tid ≠ i) ∧
        Follows i (k r) post p' := by
  generalize hp : Prog.op o k = p at h
  induction h with
  | nil p => exact .inl ⟨rfl, List.forall_mem_nil _⟩
  | @other p p' m ms hm _ ih =>
    rcases ih hp with ⟨hp', hms⟩ | ⟨pre, r, s, s', post, rfl, hpre, hpost⟩
    · exact .inl ⟨hp', List.forall_mem_cons.mpr ⟨hm, hms⟩⟩
    · exact .inr ⟨m :: pre, r, s, s', post, rfl, List.forall_mem_cons.mpr ⟨hm, hpre⟩, hpost⟩
  | @own o' k' r p' s s' ms h _ =>
    cases hp
    exact .inr ⟨[], r, s, s', ms, rfl, List.forall_mem_nil _, h⟩

/-- A sequence is in its first part, or has finished it. -/
theorem of_bind {f : α → Prog S β} {q : Prog S β} (h : Follows i (p.bind f) ms q) :
    ∃ ms₁ ms₂ p₁, ms = ms₁ ++ ms₂ ∧ Follows i p ms₁ p₁ ∧
      ((q = p₁.bind f ∧ ms₂ = []) ∨ ∃ a, p₁ = .ret a ∧ Follows i (f a) ms₂ q) := by
  induction p generalizing ms with
  | ret a => exact ⟨[], ms, .ret a, rfl, .nil _, .inr ⟨a, rfl, h⟩⟩
  | op o k ih =>
    rcases h.of_op with ⟨rfl, hms⟩ | ⟨pre, r, s, s', post, rfl, hpre, hpost⟩
    · exact ⟨ms, [], .op o k, by simp, of_others _ hms, .inl ⟨rfl, rfl⟩⟩
    · obtain ⟨ms₁, ms₂, p₁, rfl, h₁, h₂⟩ := ih r hpost
      exact ⟨pre ++ ⟨i, ⟨o, r⟩, s, s'⟩ :: ms₁, ms₂, p₁, by simp, own_after hpre h₁, h₂⟩

/-- A program whose result is only relabelled. -/
theorem of_map {f : α → β} {q : Prog S β} (h : Follows i (p.bind fun a => .ret (f a)) ms q) :
    ∃ p', Follows i p ms p' ∧ q = p'.bind fun a => .ret (f a) := by
  obtain ⟨ms₁, ms₂, p₁, rfl, h₁, ⟨rfl, rfl⟩ | ⟨a, rfl, h₂⟩⟩ := h.of_bind
  · rw [List.append_nil]
    exact ⟨p₁, h₁, rfl⟩
  · obtain ⟨rfl, hms₂⟩ := of_ret h₂
    exact ⟨.ret a, h₁.append_others hms₂, rfl⟩

theorem of_map_ret {f : α → β} {b : β} (h : Follows i (p.bind fun a => .ret (f a)) ms (.ret b)) :
    ∃ a, b = f a ∧ Follows i p ms (.ret a) := by
  obtain ⟨p', h', heq⟩ := h.of_map
  cases p' with
  | ret a =>
    cases heq
    exact ⟨a, rfl, h'⟩
  | op o k => cases heq

end Follows

/-- Threads that have not been started have done nothing, and every
thread follows the program of its call. -/
theorem Pool.Run.follows {s : M.State} {q : Pool M} {ms : List (Moment M)}
    (h : Pool.Run (Pool.empty s) ms q) :
    (∀ m ∈ ms, m.tid < q.threads.length) ∧
      ∀ i t, q.threads[i]? = some t → Follows i (M.prog t.call) ms t.prog := by
  induction h with
  | refl => exact ⟨List.forall_mem_nil _, fun i t ht => by simp at ht⟩
  | @spawn ms q q' c _ hs ih =>
    obtain ⟨l, s', _, rfl⟩ := Pool.step_spawn hs
    obtain ⟨hborn, hfollows⟩ := ih
    refine ⟨fun m hm => ?_, fun i t ht => ?_⟩
    · have := hborn m hm
      simp only [List.length_append, List.length_singleton]
      omega
    · rw [List.getElem?_append] at ht
      split at ht
      · exact hfollows i t ht
      rename_i hlt
      rw [List.getElem?_singleton] at ht
      split at ht
      · cases ht
        refine Follows.of_others _ fun m hm => ?_
        have := hborn m hm
        omega
      · cases ht
  | @env ms q q' e _ hs ih =>
    obtain ⟨s', _, rfl⟩ := Pool.step_env hs
    exact ih
  | @exec ms q j ch t o k r l s' _ ht hp hex ih =>
    obtain ⟨hborn, hfollows⟩ := ih
    have hj := (List.getElem?_eq_some_iff.mp ht).1
    refine ⟨fun m hm => ?_, fun i u hu => ?_⟩
    · rw [List.length_set]
      rcases List.mem_append.mp hm with hm | hm
      · exact hborn m hm
      · cases List.mem_singleton.mp hm
        exact hj
    · rw [List.getElem?_set] at hu
      split at hu
      · next hij =>
        subst hij
        cases hu
        have hf := hfollows j t ht
        rw [hp] at hf
        exact hf.snoc_own
      · next hij => exact (hfollows i u hu).snoc_other hij

/-! ## States along a run -/

/-- From `s` to `s'` by way of the moments `ms`, with `R` in between. -/
inductive Linked (R : M.State → M.State → Prop) : M.State → List (Moment M) → M.State → Prop where
  | nil {s s' : M.State} (h : R s s') : Linked R s [] s'
  | cons {s s' : M.State} {m : Moment M} {ms : List (Moment M)} (h : R s m.before)
      (rest : Linked R m.after ms s') : Linked R s (m :: ms) s'

namespace Linked

variable {R : M.State → M.State → Prop} {s s' : M.State} {ms ms' : List (Moment M)}

/-- A moment in the middle cuts a run in two. -/
theorem of_append_cons {m : Moment M} (h : Linked R s (ms ++ m :: ms') s') :
    Linked R s ms m.before ∧ Linked R m.after ms' s' := by
  induction ms generalizing s with
  | nil =>
    cases h with
    | cons hb hrest => exact ⟨.nil hb, hrest⟩
  | cons m' ms ih =>
    cases h with
    | cons hb hrest => exact ⟨.cons hb (ih hrest).1, (ih hrest).2⟩

theorem snoc (h : Linked R s ms s') (htrans : ∀ {a b c}, R a b → R b c → R a c) {s'' : M.State}
    (hR : R s' s'') : Linked R s ms s'' := by
  induction h with
  | nil h => exact .nil (htrans h hR)
  | cons h _ ih => exact .cons h (ih hR)

theorem snoc_moment {m : Moment M} (h : Linked R s ms m.before) (hR : R m.after s') :
    Linked R s (ms ++ [m]) s' := by
  generalize hb : m.before = b at h
  induction h with
  | nil h => subst hb; exact .cons h (.nil hR)
  | cons h _ ih => exact .cons h (ih hb)

/-- What `R` and every moment preserve, a run preserves. -/
theorem rel {Q : M.State → M.State → Prop} (hR : ∀ {a b}, R a b → Q a b)
    (htrans : ∀ {a b c}, Q a b → Q b c → Q a c) (h : Linked R s ms s')
    (hm : ∀ m ∈ ms, Q m.before m.after) : Q s s' := by
  induction h with
  | nil h => exact hR h
  | cons h _ ih =>
    obtain ⟨hm, hms⟩ := List.forall_mem_cons.mp hm
    exact htrans (hR h) (htrans hm (ih hms))

end Linked

/-- The states of a run are linked by what happens without any thread. -/
theorem Pool.Run.linked {R : M.State → M.State → Prop} {p q : Pool M} {ms : List (Moment M)}
    (h : Pool.Run p ms q) (hrefl : ∀ s, R s s) (htrans : ∀ {a b c}, R a b → R b c → R a c)
    (hstart : ∀ {n c l s s'}, M.start n c s = some (l, s') → R s s')
    (henv : ∀ {e s s'}, M.env e s = some s' → R s s') : Linked R p.shared ms q.shared := by
  induction h with
  | refl => exact .nil (hrefl _)
  | @spawn ms q q' c _ hs ih =>
    obtain ⟨l, s', hst, rfl⟩ := Pool.step_spawn hs
    exact ih.snoc htrans (hstart hst)
  | @env ms q q' e _ hs ih =>
    obtain ⟨s', he, rfl⟩ := Pool.step_env hs
    exact ih.snoc htrans (henv he)
  | exec _ ht hp hex ih => exact ih.snoc_moment (hrefl _)

end Berth.Interleave
