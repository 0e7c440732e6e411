/-
Berth.Interleave.PoolTheorems — reasoning about a pool one thread at a
time.

A `Discipline` fixes an invariant of the shared state, what one step of
a thread may do (`guar`) and what a thread must expect to happen between
two of its own steps (`interf`). `Robust D i p Q l s` says that program
`p`, run as thread `i` from bookkeeping `l` and shared state `s`, keeps
to the guarantee at every operation and ends in a state satisfying `Q`,
whatever the others do in between. The rules are one per program
constructor plus sequencing and weakening, so a proof follows the text
of the modelled code.

`PoolOk.reaches` is the soundness theorem: if every call's program is
robust when it starts, then in every interleaving of any number of calls
the invariant holds and every returned call satisfies its postcondition.

`unborn n s` says that `s` shows no trace of thread `n` yet; a new thread
starts from it. `adm` restricts attention to runs that stay inside a set of states which
no step can enter from outside, for results of the form "in every run
that never does X"; it is `True` where no restriction is meant.
-/
import Berth.Interleave.Pool

namespace Berth.Interleave

variable {S : Sig} {M : Machine S} {α β : Type}

/-- Invariant, guarantee and interference of a machine's threads. -/
structure Discipline {S : Sig} (M : Machine S) where
  adm : M.State → Prop
  inv : M.State → Prop
  unborn : Nat → M.State → Prop
  guar : Nat → M.Loc → M.State → M.State → Prop
  interf : Nat → M.Loc → M.State → M.State → Prop
  refl : ∀ i l s, interf i l s s
  trans : ∀ {i l s₁ s₂ s₃}, interf i l s₁ s₂ → interf i l s₂ s₃ → interf i l s₁ s₃
  guar_inv : ∀ {i l s s'}, inv s → adm s' → guar i l s s' → inv s'
  guar_interf : ∀ {i j l l' s s'}, i ≠ j → inv s → adm s' → guar i l s s' → interf j l' s s'
  env_inv : ∀ {e s s'}, inv s → adm s' → M.env e s = some s' → inv s'
  env_interf : ∀ {e j l s s'}, inv s → adm s' → M.env e s = some s' → interf j l s s'
  start_inv : ∀ {n c l s s'}, inv s → adm s' → M.start n c s = some (l, s') → inv s'
  start_interf : ∀ {n c l j l' s s'}, n ≠ j → inv s → adm s' →
    M.start n c s = some (l, s') → interf j l' s s'
  unborn_interf : ∀ {n s s'}, (∀ l, interf n l s s') → unborn n s → unborn n s'

/-- Program `p`, as thread `i`, keeps its guarantee and ends in `Q`
under any interference. -/
def Robust (D : Discipline M) (i : Nat) :
    Prog S α → (α → M.Loc → M.State → Prop) → M.Loc → M.State → Prop
  | .ret a, Q, l, s => ∀ s', D.interf i l s s' → D.inv s' → Q a l s'
  | .op o k, Q, l, s => ∀ s', D.interf i l s s' → D.inv s' →
      ∀ ch r l' s'', M.exec i ch o l s' = some (r, l', s'') → D.adm s'' →
        D.guar i l s' s'' ∧ Robust D i (k r) Q l' s''

namespace Robust

variable {D : Discipline M} {i : Nat} {l : M.Loc} {s s' : M.State}
variable {Q Q' : α → M.Loc → M.State → Prop}
variable {p : Prog S α}

/-- Robustness survives interference. -/
theorem stable (h : Robust D i p Q l s) (hs : D.interf i l s s') :
    Robust D i p Q l s' := by
  cases p with
  | ret a => exact fun s'' hs' hinv => h s'' (D.trans hs hs') hinv
  | op o k => exact fun s'' hs' hinv => h s'' (D.trans hs hs') hinv

/-- Only the states that interference can lead to matter. -/
theorem of_interf (h : ∀ s', D.interf i l s s' → D.inv s' → Robust D i p Q l s') :
    Robust D i p Q l s := by
  cases p with
  | ret a => exact fun s' hs hinv => h s' hs hinv s' (D.refl i l s') hinv
  | op o k => exact fun s' hs hinv => h s' hs hinv s' (D.refl i l s') hinv

/-- Weakening the postcondition. -/
theorem mono (h : Robust D i p Q l s) (hQ : ∀ a l s, D.inv s → Q a l s → Q' a l s) :
    Robust D i p Q' l s := by
  induction p generalizing l s with
  | ret a => exact fun s' hs hinv => hQ a l s' hinv (h s' hs hinv)
  | op o k ih =>
    intro s' hs hinv ch r l' s'' hex hadm
    obtain ⟨hg, hk⟩ := h s' hs hinv ch r l' s'' hex hadm
    exact ⟨hg, ih r hk⟩

/-- Sequencing: the first program's postcondition is the second's
robustness. -/
theorem bind {f : α → Prog S β} {R : β → M.Loc → M.State → Prop}
    (h : Robust D i p (fun a l s => Robust D i (f a) R l s) l s) :
    Robust D i (p.bind f) R l s := by
  induction p generalizing l s with
  | ret a => exact of_interf h
  | op o k ih =>
    intro s' hs hinv ch r l' s'' hex hadm
    obtain ⟨hg, hk⟩ := h s' hs hinv ch r l' s'' hex hadm
    exact ⟨hg, ih r hk⟩

/-- A returned program satisfies its postcondition at once. -/
theorem post {a : α} (h : Robust D i p Q l s) (hinv : D.inv s) (hp : p = .ret a) : Q a l s := by
  subst hp
  exact h s (D.refl i l s) hinv

/-- A program of operations that each do no more than `R`, like all
interference: whatever it returns, nothing else happened. -/
theorem of_only {P : S.Op → Prop} {R : M.State → M.State → Prop}
    (hR : ∀ {s s'}, D.interf i l s s' → R s s') (htrans : ∀ {s₁ s₂ s₃}, R s₁ s₂ → R s₂ s₃ → R s₁ s₃)
    (hP : ∀ {o ch r l' s s'}, P o → D.inv s → M.exec i ch o l s = some (r, l', s') →
      D.guar i l s s' ∧ l' = l ∧ R s s') (hp : p.Only P) (hQ : ∀ a s', R s s' → D.inv s' → Q a l s')
    :
    Robust D i p Q l s := by
  induction p generalizing s with
  | ret a => exact fun s' hs hinv => hQ a s' (hR hs) hinv
  | op o k ih =>
    intro s₁ hs hinv ch r l' s₂ hex hadm
    obtain ⟨hg, rfl, hi⟩ := hP hp.1 hinv hex
    exact ⟨hg, ih r (hp.2 r) fun a s' hs' => hQ a s' (htrans (hR hs) (htrans hi hs'))⟩

/-- Where the state keeps a journal of each thread's operations, newest
first, a program adds its own run to it. -/
theorem traced {J : M.State → List (Event S)} (hint : ∀ {s s'}, D.interf i l s s' → J s' = J s)
    (hexec : ∀ {ch o s r l' s'}, D.inv s → M.exec i ch o l s = some (r, l', s') →
      l' = l ∧ J s' = ⟨o, r⟩ :: J s) (h : Robust D i p Q l s) :
    Robust D i p (fun a l' s' => Q a l' s' ∧ ∃ evs, p.Ran evs a ∧ J s' = evs.reverse ++ J s) l s := by
  induction p generalizing s with
  | ret a => exact fun s' hs hinv => ⟨h s' hs hinv, [], .ret a, by simp [hint hs]⟩
  | op o k ih =>
    intro s₁ hs hinv ch r l' s₂ hex hadm
    obtain ⟨hg, hk⟩ := h s₁ hs hinv ch r l' s₂ hex hadm
    obtain ⟨rfl, hJ₂⟩ := hexec hinv hex
    refine ⟨hg, (ih r hk).mono fun a l'' s' _ ⟨hq, evs, hran, hJ⟩ => ⟨hq, ⟨o, r⟩ :: evs, .op hran, ?_⟩⟩
    rw [hJ, hJ₂, hint hs, List.reverse_cons, List.append_assoc, List.singleton_append]

end Robust

/-- The invariant holds and every thread is robust where it stands. -/
structure PoolOk (D : Discipline M) (post : Nat → M.Call → M.Out → M.Loc → M.State → Prop)
    (p : Pool M) : Prop where
  inv : D.inv p.shared
  unborn : ∀ n, p.threads.length ≤ n → D.unborn n p.shared
  robust : ∀ i t, p.threads[i]? = some t → Robust D i t.prog (post i t.call) t.loc p.shared

namespace PoolOk

variable {D : Discipline M} {post : Nat → M.Call → M.Out → M.Loc → M.State → Prop}
variable {p q : Pool M}

/-- The empty pool is fine in any state with the invariant. -/
theorem empty {s : M.State} (h : D.inv s) (hu : ∀ n, D.unborn n s) :
    PoolOk D post (Pool.empty s) :=
  ⟨h, fun n _ => hu n, fun i t ht => by simp at ht⟩

/-- One step keeps a pool fine. The acting thread moves along its own
robustness; for every other thread the step is interference. -/
theorem step (hprog : ∀ {n c s l s'}, D.inv s → D.unborn n s → D.adm s' →
      M.start n c s = some (l, s') →
      Robust D n (M.prog c) (post n c) l s')
    (h : PoolOk D post p) (hs : p.Step q) (hadm : D.adm q.shared) : PoolOk D post q := by
  obtain ⟨c, l, s, hst, rfl⟩ | ⟨i, ch, t, o, k, r, l, s, ht, hp, hex, rfl⟩ | ⟨e, s, he, rfl⟩ :=
    Pool.step_cases hs
  · refine ⟨D.start_inv h.inv hadm hst, fun n hn => ?_, fun j u hu => ?_⟩
    · have hlen : p.threads.length + 1 ≤ n := by simpa using hn
      exact D.unborn_interf (fun l' => D.start_interf (by omega) h.inv hadm hst)
        (h.unborn n (by omega))
    rcases getElem?_concat_cases hu with ⟨hj, hu⟩ | ⟨rfl, rfl⟩
    · -- an old thread: the new call's entry is interference for it
      exact (h.robust j u hu).stable (D.start_interf (by omega) h.inv hadm hst)
    · exact hprog h.inv (h.unborn _ (Nat.le_refl _)) hadm hst
  · have hrob := h.robust i t ht
    rw [hp] at hrob
    obtain ⟨hg, hk⟩ := hrob p.shared (D.refl _ _ _) h.inv ch r l s hex hadm
    refine ⟨D.guar_inv h.inv hadm hg, fun n hn => ?_, fun j u hu => ?_⟩
    · have hlen : p.threads.length ≤ n := by simpa using hn
      have hi : i < p.threads.length := (List.getElem?_eq_some_iff.mp ht).1
      exact D.unborn_interf (fun l' => D.guar_interf (by omega) h.inv hadm hg)
        (h.unborn n hlen)
    rw [List.getElem?_set] at hu
    split at hu
    · next hij =>
      split at hu
      · subst hij
        simp only [Option.some.injEq] at hu
        subst hu
        exact hk
      · cases hu
    · next hij =>
      exact (h.robust j u hu).stable (D.guar_interf hij h.inv hadm hg)
  · exact ⟨D.env_inv h.inv hadm he,
      fun n hn => D.unborn_interf (fun l' => D.env_interf h.inv hadm he) (h.unborn n hn),
      fun j u hu => (h.robust j u hu).stable (D.env_interf h.inv hadm he)⟩

/-- Soundness: in every run whose last state is admissible (and hence
every state before it), the invariant and every thread's robustness
hold. -/
theorem reaches (hprog : ∀ {n c s l s'}, D.inv s → D.unborn n s → D.adm s' →
      M.start n c s = some (l, s') →
      Robust D n (M.prog c) (post n c) l s')
    (hdown : ∀ {a b : Pool M}, a.Step b → D.adm b.shared → D.adm a.shared)
    (h : PoolOk D post p) (hr : p.Reaches q) (hadm : D.adm q.shared) : PoolOk D post q := by
  induction hr with
  | refl => exact h
  | tail _ hs ih => exact (ih (hdown hs hadm)).step hprog hs hadm

/-- What every kind of step does to the shared state, one step does. -/
theorem step_rel {R : M.State → M.State → Prop}
    (hguar : ∀ {i l s s'}, D.guar i l s s' → R s s')
    (henv : ∀ {e s s'}, D.inv s → M.env e s = some s' → R s s')
    (hstart : ∀ {n c l s s'}, D.inv s → M.start n c s = some (l, s') → R s s')
    (h : PoolOk D post p) (hs : p.Step q) (hadm : D.adm q.shared) : R p.shared q.shared := by
  obtain ⟨c, l, s, hst, rfl⟩ | ⟨i, ch, t, o, k, r, l, s, ht, hp, hex, rfl⟩ | ⟨e, s, he, rfl⟩ :=
    Pool.step_cases hs
  · exact hstart h.inv hst
  · have hrob := h.robust i t ht
    rw [hp] at hrob
    exact hguar (hrob p.shared (D.refl _ _ _) h.inv ch r l s hex hadm).1
  · exact henv h.inv he

/-- So does a whole run. -/
theorem reaches_rel {R : M.State → M.State → Prop} (hrefl : ∀ s, R s s)
    (htrans : ∀ {s₁ s₂ s₃}, R s₁ s₂ → R s₂ s₃ → R s₁ s₃)
    (hguar : ∀ {i l s s'}, D.guar i l s s' → R s s')
    (henv : ∀ {e s s'}, M.env e s = some s' → R s s')
    (hstart : ∀ {n c l s s'}, M.start n c s = some (l, s') → R s s')
    (hadm : ∀ s, D.adm s) (hok : ∀ {a : Pool M}, p.Reaches a → PoolOk D post a)
    (hr : p.Reaches q) : R p.shared q.shared := by
  induction hr with
  | refl => exact hrefl _
  | tail ha hs ih =>
    exact htrans ih ((hok ha).step_rel hguar (fun _ => henv) (fun _ => hstart) hs (hadm _))

/-- A thread that has returned satisfies its postcondition. -/
theorem returned {i : Nat} {t : Thread M} {a : M.Out} (h : PoolOk D post p)
    (ht : p.threads[i]? = some t) (ha : t.prog.result? = some a) :
    post i t.call a t.loc p.shared :=
  (h.robust i t ht).post h.inv (Prog.eq_ret_of_result? ha)

end PoolOk

end Berth.Interleave
