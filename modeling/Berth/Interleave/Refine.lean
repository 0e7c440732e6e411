/-
Berth.Interleave.Refine — operations that are programs of smaller ones.

An `Implementation` of a machine `M` replaces every operation by a program
over a finer signature. Its own machine runs the same calls with every
operation expanded, so that others may act in the middle of what was one
step of `M`.

An operation is implemented well if under all interference its program has
one step that does to the abstract state what the operation does, while
every other step leaves the abstract state as it is: `Commits` before that
step, `Settles` after it. A `Simulation` collects this for all operations.
From it, every run of the implementation is matched by a run of `M`
(`Simulation.reaches`): a thread stands where its abstract thread stands,
or inside an operation of it, and threads that return return the same.

`idle` is what a thread may rely on between two operations. Operations
that a thread does not use where it is (`used`) need not be implemented
well.
-/
import Berth.Interleave.PoolTheorems

namespace Berth.Interleave

variable {S T : Sig} {α : Type}

/-! ## Expansion -/

namespace Prog

/-- Every operation replaced by its program. -/
def expand (e : (o : S.Op) → Prog T (S.Res o)) : Prog S α → Prog T α
  | .ret a => .ret a
  | .op o k => (e o).bind fun r => (k r).expand e

variable {e : (o : S.Op) → Prog T (S.Res o)}

@[simp] theorem expand_op (o : S.Op) (k : S.Res o → Prog S α) :
    (Prog.op o k).expand e = (e o).bind fun r => (k r).expand e := rfl

end Prog

/-- The operations of `M` as programs over `T`, and the finer machine's
state and steps. -/
structure Implementation (M : Machine S) (T : Sig) where
  State : Type
  Choice : Type
  Env : Type
  expansion : M.Call → (o : S.Op) → Prog T (S.Res o)
  start : Nat → M.Call → State → Option (M.Loc × State)
  exec : Nat → Choice → (o : T.Op) → M.Loc → State → Option (T.Res o × M.Loc × State)
  env : Env → State → Option State

/-- The same calls, with every operation expanded. -/
abbrev Implementation.machine {M : Machine S} (C : Implementation M T) : Machine T where
  Call := M.Call
  Out := M.Out
  Loc := M.Loc
  State := C.State
  Choice := C.Choice
  Env := C.Env
  prog := fun c => (M.prog c).expand (C.expansion c)
  start := C.start
  exec := C.exec
  env := C.env

variable {M : Machine S} {C : Implementation M T}

/-! ## One operation -/

/-- What a simulation is stated with: the threads' discipline, the relation
between the states, what a thread relies on between operations, and which
operations it uses. -/
structure View (C : Implementation M T) where
  discipline : Discipline C.machine
  rel : C.State → M.State → Prop
  idle : Nat → M.Loc → C.State → Prop
  used : M.Loc → S.Op → Prop
  adm : ∀ n, discipline.adm n
  idle_interf : ∀ {i l n n'}, idle i l n → discipline.interf i l n n' → idle i l n'

namespace View

variable (V : View C)

/-- The operation has taken effect with answer `a`: nothing more happens to
the abstract state, and the program returns `a`. -/
def Settles (i : Nat) (a : α) : Prog T α → M.Loc → C.State → Prop
  | .ret b, l, n => b = a ∧ V.idle i l n
  | .op o k, l, n => ∀ n' m, V.discipline.interf i l n n' → V.discipline.inv n' → V.rel n' m →
      ∀ ch r l' n'', C.exec i ch o l n' = some (r, l', n'') →
        V.discipline.guar i l n' n'' ∧ l' = l ∧ V.rel n'' m ∧ Settles i a (k r) l n''

/-- The operation `o` is still to take effect, and will in one of the
program's steps. -/
def Commits (i : Nat) (o : S.Op) : Prog T (S.Res o) → M.Loc → C.State → Prop
  | .ret _, _, _ => False
  | .op o' k, l, n => ∀ n' m, V.discipline.interf i l n n' → V.discipline.inv n' → V.rel n' m →
      ∀ ch r l' n'', C.exec i ch o' l n' = some (r, l', n'') →
        V.discipline.guar i l n' n'' ∧
          ((l' = l ∧ V.rel n'' m ∧ Commits i o (k r) l n'') ∨
            ∃ ch' a m', M.exec i ch' o l m = some (a, l', m') ∧ V.rel n'' m' ∧
              V.Settles i a (k r) l' n'')

variable {V}

theorem Settles.interf {i : Nat} {a : α} {p : Prog T α} {l : M.Loc} {n n' : C.State}
    (h : V.Settles i a p l n) (hn : V.discipline.interf i l n n') : V.Settles i a p l n' := by
  cases p with
  | ret b => exact ⟨h.1, V.idle_interf h.2 hn⟩
  | op o k => exact fun n'' m hi => h n'' m (V.discipline.trans hn hi)

theorem Commits.interf {i : Nat} {o : S.Op} {p : Prog T (S.Res o)} {l : M.Loc} {n n' : C.State}
    (h : V.Commits i o p l n) (hn : V.discipline.interf i l n n') : V.Commits i o p l n' := by
  cases p with
  | ret b => exact h
  | op o' k => exact fun n'' m hi => h n'' m (V.discipline.trans hn hi)

end View

/-! ## Programs and pools -/

/-- Every operation in use is implemented well, and so are starts and steps
of the environment. -/
structure Simulation (C : Implementation M T) extends View C where
  unborn_idle : ∀ {i c l n n'}, discipline.inv n → discipline.unborn i n →
    C.start i c n = some (l, n') → idle i l n'
  prog_used : ∀ {i c l n n'}, C.start i c n = some (l, n') → (M.prog c).Only (used l)
  used_exec : ∀ {i ch o l n r l' n'}, C.exec i ch o l n = some (r, l', n') →
    ∀ o', used l o' → used l' o'
  commits : ∀ {i : Nat} (c : M.Call) (o : S.Op) {l : M.Loc} {n : C.State}, used l o → idle i l n →
    toView.Commits i o (C.expansion c o) l n
  start_rel : ∀ {i c l n n' m}, rel n m → C.start i c n = some (l, n') →
    ∃ m', M.start i c m = some (l, m') ∧ rel n' m'
  env_rel : ∀ {e n n' m}, rel n m → C.env e n = some n' →
    rel n' m ∨ ∃ e' m', M.env e' m = some m' ∧ rel n' m'

/-- Where the finer thread stands in relation to the abstract one: at the
same place between operations, before an operation takes effect, or after. -/
inductive Corresponds (V : View C) (i : Nat) (c : M.Call) :
    Prog T α → Prog S α → M.Loc → C.State → Prop where
  | same {q : Prog S α} {l : M.Loc} {n : C.State} (h : V.idle i l n) :
      Corresponds V i c (q.expand (C.expansion c)) q l n
  | before {o : S.Op} {k : S.Res o → Prog S α} {p : Prog T (S.Res o)} {l : M.Loc} {n : C.State}
      (h : V.Commits i o p l n) :
      Corresponds V i c (p.bind fun r => (k r).expand (C.expansion c)) (.op o k) l n
  | after {τ : Type} {k : τ → Prog S α} {a : τ} {p : Prog T τ} {l : M.Loc} {n : C.State}
      (h : V.Settles i a p l n) :
      Corresponds V i c (p.bind fun r => (k r).expand (C.expansion c)) (k a) l n

namespace Corresponds

variable {Z : Simulation C} {i : Nat} {c : M.Call} {l : M.Loc} {n n' : C.State}
  {p : Prog T α} {q : Prog S α}

theorem interf (h : Corresponds Z.toView i c p q l n) (hn : Z.discipline.interf i l n n') :
    Corresponds Z.toView i c p q l n' := by
  cases h with
  | same h => exact .same (Z.idle_interf h hn)
  | before h => exact .before (h.interf hn)
  | after h => exact .after (h.interf hn)

/-- A thread that has returned has an abstract thread that has returned the
same. -/
theorem of_ret {a : α} (h : Corresponds Z.toView i c (.ret a) q l n) (hq : q.Only (Z.used l)) :
    q = .ret a ∧ Z.idle i l n := by
  generalize hp : (Prog.ret a : Prog T α) = p at h
  cases h with
  | same h =>
    cases q with
    | ret b =>
      cases hp
      exact ⟨rfl, h⟩
    | op o k =>
      -- an operation is never expanded to nothing
      have hc := Z.commits c o hq.1 h
      cases he : C.expansion c o with
      | ret r =>
        rw [he] at hc
        exact absurd hc id
      | op o' k' =>
        rw [Prog.expand_op, he] at hp
        cases hp
  | @before o k p l n h =>
    cases p with
    | ret r => exact absurd h id
    | op o' k' => cases hp
  | @after τ k b p l n h =>
    cases p with
    | op o' k' => cases hp
    | ret r =>
      obtain ⟨rfl, hidle⟩ := h
      rw [Prog.ret_bind] at hp
      cases hk : k r with
      | ret c =>
        rw [hk] at hp
        cases hp
        exact ⟨rfl, hidle⟩
      | op o k' =>
        rw [hk] at hq
        have hc := Z.commits c o hq.1 hidle
        rw [hk, Prog.expand_op] at hp
        cases he : C.expansion c o with
        | ret r' =>
          rw [he] at hc
          exact absurd hc id
        | op o' k'' =>
          rw [he] at hp
          cases hp

/-- What one step of a thread means: nothing for the abstract thread, or
its next operation. -/
def StepTo (V : View C) (i : Nat) (c : M.Call) (p' : Prog T α) (q : Prog S α) (l l' : M.Loc)
    (n' : C.State) (m : M.State) : Prop :=
  (l' = l ∧ V.rel n' m ∧ Corresponds V i c p' q l' n') ∨
    ∃ o k ch a m', q = .op o k ∧ M.exec i ch o l m = some (a, l', m') ∧ V.rel n' m' ∧
      Corresponds V i c p' (k a) l' n'

variable {o' : T.Op} {k' : T.Res o' → Prog T α} {ch : C.Choice} {r : T.Res o'} {l' : M.Loc}
  {m : M.State}

/-- One step inside an operation that has not taken effect. -/
theorem step_before {o : S.Op} {k : S.Res o → Prog S α} {p : Prog T (S.Res o)}
    (h : Z.toView.Commits i o p l n) (hinv : Z.discipline.inv n) (hrel : Z.rel n m)
    (hp : (p.bind fun r => (k r).expand (C.expansion c)) = .op o' k')
    (hex : C.exec i ch o' l n = some (r, l', n')) :
    Z.discipline.guar i l n n' ∧ StepTo Z.toView i c (k' r) (.op o k) l l' n' m := by
  cases p with
  | ret b => exact absurd h id
  | op o₁ k₁ =>
    cases hp
    obtain ⟨hg, ⟨rfl, hr, hc⟩ | ⟨ch', a, m', hM, hr, hs⟩⟩ :=
      h n m (Z.discipline.refl i l n) hinv hrel ch r l' n' hex
    · exact ⟨hg, .inl ⟨rfl, hr, .before hc⟩⟩
    · exact ⟨hg, .inr ⟨o, k, ch', a, m', rfl, hM, hr, .after hs⟩⟩

/-- One step from where both threads stand at the same place. -/
theorem step_same (h : Z.idle i l n) (hq : q.Only (Z.used l)) (hinv : Z.discipline.inv n)
    (hrel : Z.rel n m) (hp : q.expand (C.expansion c) = .op o' k')
    (hex : C.exec i ch o' l n = some (r, l', n')) :
    Z.discipline.guar i l n n' ∧ StepTo Z.toView i c (k' r) q l l' n' m := by
  cases q with
  | ret b => cases hp
  | op o k => exact step_before (Z.commits c o hq.1 h) hinv hrel hp hex

theorem step (h : Corresponds Z.toView i c (.op o' k') q l n) (hq : q.Only (Z.used l))
    (hinv : Z.discipline.inv n) (hrel : Z.rel n m) (hex : C.exec i ch o' l n = some (r, l', n')) :
    Z.discipline.guar i l n n' ∧ StepTo Z.toView i c (k' r) q l l' n' m := by
  generalize hp : Prog.op o' k' = p at h
  cases h with
  | same h => exact step_same h hq hinv hrel hp.symm hex
  | before h => exact step_before h hinv hrel hp.symm hex
  | @after τ k a p l n h =>
    cases p with
    | ret b =>
      obtain ⟨rfl, hidle⟩ := h
      exact step_same hidle hq hinv hrel hp.symm hex
    | op o₁ k₁ =>
      cases hp
      obtain ⟨hg, rfl, hr, hs⟩ := h n m (Z.discipline.refl i l n) hinv hrel ch r l' n' hex
      exact ⟨hg, .inl ⟨rfl, hr, .after hs⟩⟩

end Corresponds

/-- Thread by thread, a pool of the implementation and one of `M`. -/
structure Matches (V : View C) (p : Pool C.machine) (q : Pool M) : Prop where
  inv : V.discipline.inv p.shared
  unborn : ∀ i, p.threads.length ≤ i → V.discipline.unborn i p.shared
  rel : V.rel p.shared q.shared
  length : q.threads.length = p.threads.length
  threads : ∀ (i : Nat) (t : Thread C.machine) (u : Thread M), p.threads[i]? = some t →
    q.threads[i]? = some u → u.call = t.call ∧ u.loc = t.loc ∧ u.prog.Only (V.used t.loc) ∧
      Corresponds V i t.call t.prog u.prog t.loc p.shared

namespace Matches

variable {Z : Simulation C} {p p' : Pool C.machine} {q : Pool M}

theorem empty {n : C.State} {m : M.State} (hinv : Z.discipline.inv n)
    (hunborn : ∀ i, Z.discipline.unborn i n) (hrel : Z.rel n m) :
    Matches Z.toView (Pool.empty n : Pool C.machine) (Pool.empty m : Pool M) where
  inv := hinv
  unborn := fun i _ => hunborn i
  rel := hrel
  length := rfl
  threads := fun i t u ht => by cases ht

/-- The abstract thread of a thread. -/
theorem thread (h : Matches Z.toView p q) {i : Nat} {t : Thread C.machine}
    (ht : p.threads[i]? = some t) :
    ∃ u, q.threads[i]? = some u ∧ u.call = t.call ∧ u.loc = t.loc ∧ u.prog.Only (Z.used t.loc) ∧
      Corresponds Z.toView i t.call t.prog u.prog t.loc p.shared := by
  have hlt := (List.getElem?_eq_some_iff.mp ht).1
  have hlt' : i < q.threads.length := h.length ▸ hlt
  exact ⟨_, List.getElem?_eq_getElem hlt', h.threads i t _ ht (List.getElem?_eq_getElem hlt')⟩

theorem step_env (h : Matches Z.toView p q) {e : C.Env} {n : C.State}
    (he : C.env e p.shared = some n) :
    ∃ q', q.Reaches q' ∧ Matches Z.toView { p with shared := n } q' := by
  have hinv := Z.discipline.env_inv h.inv (Z.adm n) he
  have hinterf : ∀ {i l}, Z.discipline.interf i l p.shared n :=
    Z.discipline.env_interf h.inv (Z.adm n) he
  have hunborn : ∀ i, p.threads.length ≤ i → Z.discipline.unborn i n :=
    fun i hi => Z.discipline.unborn_interf (fun _ => hinterf) (h.unborn i hi)
  have hthreads : ∀ i t u, p.threads[i]? = some t → q.threads[i]? = some u →
      u.call = t.call ∧ u.loc = t.loc ∧ u.prog.Only (Z.used t.loc) ∧
        Corresponds Z.toView i t.call t.prog u.prog t.loc n := by
    intro i t u ht hu
    obtain ⟨hcall, hloc, honly, hcorr⟩ := h.threads i t u ht hu
    exact ⟨hcall, hloc, honly, hcorr.interf hinterf⟩
  rcases Z.env_rel h.rel he with hrel | ⟨e', m', he', hrel⟩
  · exact ⟨q, .refl, hinv, hunborn, hrel, h.length, hthreads⟩
  · refine ⟨{ q with shared := m' }, .single ⟨.env e', ?_⟩, hinv, hunborn, hrel, h.length, hthreads⟩
    simp only [Pool.step, he', Option.map_some]

theorem step_spawn (h : Matches Z.toView p q) {c : M.Call} {l : M.Loc} {n : C.State}
    (hst : C.start p.threads.length c p.shared = some (l, n)) :
    ∃ q', q.Reaches q' ∧ Matches Z.toView
      { shared := n, threads := p.threads ++
          [{ call := c, loc := l, prog := (M.prog c).expand (C.expansion c) }] } q' := by
  obtain ⟨m', hM, hrel⟩ := Z.start_rel h.rel hst
  have hinv := Z.discipline.start_inv h.inv (Z.adm n) hst
  have hinterf : ∀ {i l'}, p.threads.length ≠ i → Z.discipline.interf i l' p.shared n :=
    fun hi => Z.discipline.start_interf hi h.inv (Z.adm n) hst
  refine ⟨{ shared := m', threads := q.threads ++ [⟨c, l, M.prog c⟩] }, .single ⟨.spawn c, ?_⟩,
    hinv, fun i hi => ?_, hrel, ?_, fun i t u ht hu => ?_⟩
  · simp only [Pool.step, h.length, hM, Option.map_some]
  · have hi' : p.threads.length + 1 ≤ i := by simpa using hi
    exact Z.discipline.unborn_interf (fun _ => hinterf (by omega)) (h.unborn i (by omega))
  · simp [h.length]
  · have hlen := h.length
    rcases getElem?_concat_cases ht with ⟨hi, ht⟩ | ⟨hi, rfl⟩ <;>
      rcases getElem?_concat_cases hu with ⟨hi', hu⟩ | ⟨hi', rfl⟩
    · obtain ⟨hcall, hloc, honly, hcorr⟩ := h.threads i t u ht hu
      exact ⟨hcall, hloc, honly, hcorr.interf (hinterf (by omega))⟩
    · omega
    · omega
    · subst hi
      exact ⟨rfl, rfl, Z.prog_used hst, .same (Z.unborn_idle h.inv (h.unborn _ (Nat.le_refl _)) hst)⟩

theorem step_exec (h : Matches Z.toView p q) {i : Nat} {ch : C.Choice} {t : Thread C.machine}
    {o : T.Op} {k : T.Res o → Prog T M.Out} {r : T.Res o} {l : M.Loc} {n : C.State}
    (ht : p.threads[i]? = some t) (hp : t.prog = .op o k)
    (hex : C.exec i ch o t.loc p.shared = some (r, l, n)) :
    ∃ q', q.Reaches q' ∧ Matches Z.toView
      { shared := n, threads := p.threads.set i { call := t.call, loc := l, prog := k r } } q' := by
  obtain ⟨u, hu, hcall, hloc, honly, hcorr⟩ := h.thread ht
  rw [hp] at hcorr
  obtain ⟨hguar, hstep⟩ := hcorr.step honly h.inv h.rel hex
  have hinv := Z.discipline.guar_inv h.inv (Z.adm n) hguar
  have hinterf : ∀ {j l'}, i ≠ j → Z.discipline.interf j l' p.shared n :=
    fun hij => Z.discipline.guar_interf hij h.inv (Z.adm n) hguar
  have hi := (List.getElem?_eq_some_iff.mp ht).1
  have hunborn : ∀ j, p.threads.length ≤ j → Z.discipline.unborn j n :=
    fun j hj => Z.discipline.unborn_interf (fun _ => hinterf (by omega)) (h.unborn j hj)
  -- whatever the abstract thread becomes, the other threads see interference
  have hothers : ∀ (u' : Thread M), u'.call = t.call → u'.loc = l → u'.prog.Only (Z.used l) →
      Corresponds Z.toView i t.call (k r) u'.prog l n →
      ∀ (j : Nat) (t' : Thread C.machine) (v : Thread M),
        (p.threads.set i { call := t.call, loc := l, prog := k r })[j]? = some t' →
        (q.threads.set i u')[j]? = some v →
        v.call = t'.call ∧ v.loc = t'.loc ∧ v.prog.Only (Z.used t'.loc) ∧
          Corresponds Z.toView j t'.call t'.prog v.prog t'.loc n := by
    intro u' hcall' hloc' honly' hcorr' j t' v ht' hv
    by_cases hij : i = j
    · subst hij
      rw [List.getElem?_set_self hi, Option.some.injEq] at ht'
      rw [List.getElem?_set_self (h.length ▸ hi), Option.some.injEq] at hv
      subst ht'
      subst hv
      exact ⟨hcall', hloc', honly', hcorr'⟩
    · rw [List.getElem?_set_ne hij] at ht' hv
      obtain ⟨hc, hl, ho, hcr⟩ := h.threads j t' v ht' hv
      exact ⟨hc, hl, ho, hcr.interf (hinterf hij)⟩
  rcases hstep with ⟨rfl, hrel, hcorr'⟩ | ⟨o', k', ch', a, m', hq, hM, hrel, hcorr'⟩
  · refine ⟨q, .refl, hinv, fun j hj => hunborn j (by simpa using hj), hrel,
      by simp [h.length], fun j t' v ht' hv => ?_⟩
    refine hothers u hcall hloc honly hcorr' j t' v ht' ?_
    rw [← List.getElem?_eq_some_iff.mp hu |>.2, List.set_getElem_self]
    exact hv
  · rw [hq] at honly
    refine ⟨{ shared := m', threads := q.threads.set i ⟨u.call, l, k' a⟩ },
      .single ⟨.exec i ch', ?_⟩, hinv, fun j hj => hunborn j (by simpa using hj), hrel,
      by simp [h.length],
      hothers ⟨u.call, l, k' a⟩ hcall rfl ((honly.2 a).mono (Z.used_exec hex)) hcorr'⟩
    rw [← hloc] at hM
    simp only [Pool.step, hu, Option.bind_some, Pool.execThread, hq, hM, Option.map_some]

theorem step (h : Matches Z.toView p q) (hs : p.Step p') :
    ∃ q', q.Reaches q' ∧ Matches Z.toView p' q' := by
  obtain ⟨c, l, n, hst, rfl⟩ | ⟨i, ch, t, o, k, r, l, n, ht, hp, hex, rfl⟩ | ⟨e, n, he, rfl⟩ :=
    Pool.step_cases hs
  · exact h.step_spawn hst
  · exact h.step_exec ht hp hex
  · exact h.step_env he

/-- What every kind of step does to the shared state, one step does. -/
theorem step_rel {R : C.State → C.State → Prop} (h : Matches Z.toView p q)
    (hguar : ∀ {i l s s'}, Z.discipline.guar i l s s' → R s s')
    (henv : ∀ {e s s'}, Z.discipline.inv s → C.env e s = some s' → R s s')
    (hstart : ∀ {n c l s s'}, Z.discipline.inv s → C.start n c s = some (l, s') → R s s')
    (hs : p.Step p') : R p.shared p'.shared := by
  obtain ⟨c, l, n, hst, rfl⟩ | ⟨i, ch, t, o, k, r, l, n, ht, hp, hex, rfl⟩ | ⟨e, n, he, rfl⟩ :=
    Pool.step_cases hs
  · exact hstart h.inv hst
  · obtain ⟨u, _, _, _, honly, hcorr⟩ := h.thread ht
    rw [hp] at hcorr
    exact hguar (hcorr.step honly h.inv h.rel hex).1
  · exact henv h.inv he

/-- A returned thread's abstract thread has returned the same. -/
theorem returned (h : Matches Z.toView p q) {i : Nat} {t : Thread C.machine} {a : M.Out}
    (ht : p.threads[i]? = some t) (ha : t.prog.result? = some a) :
    ∃ u, q.threads[i]? = some u ∧ u.call = t.call ∧ u.prog.result? = some a ∧
      Z.idle i t.loc p.shared := by
  obtain ⟨u, hu, hcall, _, honly, hcorr⟩ := h.thread ht
  rw [Prog.eq_ret_of_result? ha] at hcorr
  obtain ⟨hprog, hidle⟩ := hcorr.of_ret honly
  exact ⟨u, hu, hcall, by rw [hprog]; rfl, hidle⟩

end Matches

/-- Soundness: every run of the implementation is matched by a run of the
machine it implements. -/
theorem Simulation.reaches (Z : Simulation C) {n : C.State} {m : M.State} {p : Pool C.machine}
    (hinv : Z.discipline.inv n) (hunborn : ∀ i, Z.discipline.unborn i n) (hrel : Z.rel n m)
    (h : (Pool.empty n : Pool C.machine).Reaches p) :
    ∃ q, (Pool.empty m : Pool M).Reaches q ∧ Matches Z.toView p q := by
  induction h with
  | refl => exact ⟨_, .refl, .empty hinv hunborn hrel⟩
  | tail _ hs ih =>
    obtain ⟨q, hq, hmatch⟩ := ih
    obtain ⟨q', hq', hmatch'⟩ := hmatch.step hs
    exact ⟨q', hq.trans hq', hmatch'⟩

/-- What every kind of step does to the shared state, every run does from
where the implementation matches. -/
theorem Simulation.reaches_rel (Z : Simulation C) {R : C.State → C.State → Prop}
    (hrefl : ∀ s, R s s) (htrans : ∀ {s₁ s₂ s₃}, R s₁ s₂ → R s₂ s₃ → R s₁ s₃)
    (hguar : ∀ {i l s s'}, Z.discipline.guar i l s s' → R s s')
    (henv : ∀ {e s s'}, Z.discipline.inv s → C.env e s = some s' → R s s')
    (hstart : ∀ {n c l s s'}, Z.discipline.inv s → C.start n c s = some (l, s') → R s s')
    {p p' : Pool C.machine} {q : Pool M} (hmatch : Matches Z.toView p q) (h : p.Reaches p') :
    R p.shared p'.shared := by
  have hrun : ∃ q', Matches Z.toView p' q' ∧ R p.shared p'.shared := by
    induction h with
    | refl => exact ⟨q, hmatch, hrefl _⟩
    | tail _ hs ih =>
      obtain ⟨q₁, hmatch₁, hR⟩ := ih
      obtain ⟨q₂, _, hmatch₂⟩ := hmatch₁.step hs
      exact ⟨q₂, hmatch₂, htrans hR (hmatch₁.step_rel hguar henv hstart hs)⟩
  exact hrun.choose_spec.2

end Berth.Interleave
