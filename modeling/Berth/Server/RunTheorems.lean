/-
Berth.Server.RunTheorems — what the moments of a run do to the store.

Between two moments the store does not change, and one moment changes at
most the record of one key, to a higher version. So a version that is
found again has not been touched in between, whoever else was writing:
the store's compare-and-swap, read off a whole run. Nothing is assumed
about the calls of the run or about the store's first content, except
that `Put` could have left it.
-/
import Berth.Interleave.Trace
import Berth.Server.WorldTheorems

namespace Berth.Server

open Berth.Interleave Berth.Lease

variable {cfg : Config} {w w' : World} {ms : List (Moment (machine cfg))}
variable {m : Moment (machine cfg)} {k : Key} {i : Nat}

/-- A moment of the server. -/
def Genuine (m : Moment (machine cfg)) : Prop :=
  ∃ ch l l', exec cfg m.tid ch m.event.1 l m.before = some (m.event.2, l', m.after)

/-- What happens between two moments. -/
def SameStore (w w' : World) : Prop := w'.store = w.store

/-- A part of a run: where it starts, what happens and where it ends. -/
structure Stretch (cfg : Config) (w : World) (ms : List (Moment (machine cfg))) (w' : World) :
    Prop where
  linked : Linked SameStore w ms w'
  genuine : ∀ m ∈ ms, Genuine m
  filled : w.store.Filled

/-- The change of one key's record. -/
def Changes (k : Key) (m : Moment (machine cfg)) : Prop :=
  m.after.store.lookup k ≠ m.before.store.lookup k

instance (m : Moment (machine cfg)) : Decidable (Changes k m) :=
  inferInstanceAs (Decidable (_ ≠ _))

/-! ## What one moment does -/

/-- The moment at which thread `i` was told `r` when it asked for `o`. -/
def Told (i : Nat) (o : StoreOp) (r : o.Res) (m : Moment (machine cfg)) : Prop :=
  m.tid = i ∧ m.event = ⟨o, r⟩

/-- The replacement of the record of `k` at version `v`. -/
def Replaces (k : Key) (v : Int) (m : Moment (machine cfg)) : Prop :=
  Changes k m ∧ (m.before.store.lookup k).map Record.version = some v

theorem Genuine.exec_of_told {o : StoreOp} {r : o.Res} (h : Genuine m) (ht : Told i o r m) :
    ∃ ch l l', exec cfg i ch o l m.before = some (r, l', m.after) := by
  obtain ⟨j, ev, s, s'⟩ := m
  obtain ⟨rfl, rfl⟩ := ht
  exact h

theorem Genuine.told_get {key : Key} {r : Except Err Record} (h : Genuine m)
    (ht : Told i (.get key) r m) : m.after.store = m.before.store ∧
      (r = m.before.store.get key ∨ ∃ e, r = .error e ∧ backendFault e = true) := by
  obtain ⟨ch, l, l', hex⟩ := h.exec_of_told ht
  obtain ⟨heq, -, hr⟩ := exec_get hex
  exact ⟨by rw [heq], hr⟩

theorem Genuine.told_list {r : Except Err (List Record)} (h : Genuine m)
    (ht : Told i .list r m) : m.after.store = m.before.store ∧
      ((∃ rs, r = .ok rs ∧ rs.Perm m.before.store.list) ∨
        ∃ e, r = .error e ∧ backendFault e = true) := by
  obtain ⟨ch, l, l', hex⟩ := h.exec_of_told ht
  obtain ⟨heq, -, hr⟩ := exec_list hex
  exact ⟨by rw [heq], hr⟩

theorem Genuine.told_now {t : Time} (h : Genuine m) (ht : Told i .now t m) :
    m.after.store = m.before.store := by
  obtain ⟨ch, l, l', hex⟩ := h.exec_of_told ht
  rw [(exec_now hex).1]

theorem Genuine.told_ctxDone {b : Bool} (h : Genuine m) (ht : Told i .ctxDone b m) :
    m.after.store = m.before.store := by
  obtain ⟨ch, l, l', hex⟩ := h.exec_of_told ht
  rw [(exec_ctxDone hex).1]

/-- A write went through, was refused, or its answer is a backend error. -/
theorem Genuine.told_put {v : Int} {rec : Record} {r : Except Err Unit} (h : Genuine m)
    (ht : Told i (.put v rec) r m) :
    (MemStore.permits (m.before.store.lookup rec.key) v = true ∧
      (r = .ok () ∨ ∃ e, r = .error e ∧ backendFault e = true) ∧
      ∀ k, m.after.store.lookup k =
        if rec.key = k then some { rec with version := v + 1 } else m.before.store.lookup k) ∨
    (m.after.store = m.before.store ∧
      ((r = .error errConflict ∧ MemStore.permits (m.before.store.lookup rec.key) v = false) ∨
        ∃ e, r = .error e ∧ backendFault e = true)) := by
  obtain ⟨ch, l, l', hex⟩ := h.exec_of_told ht
  rcases put_cases m.before i l v rec with ⟨hp, hput⟩ | ⟨hp, w₁, hput, -, -, hstore⟩
  · refine .inr ?_
    rcases (exec_put hex).2 with ⟨heq, -⟩ | ⟨hfault, heq | ⟨heq, -⟩⟩
    · rw [hput] at heq
      obtain ⟨hr, hw⟩ := Prod.mk.inj heq
      exact ⟨by rw [hw], .inl ⟨hr, hp⟩⟩
    · exact ⟨by rw [heq], .inr hfault⟩
    · rw [hput] at heq
      exact ⟨by rw [heq], .inr hfault⟩
  · rcases (exec_put hex).2 with ⟨heq, -⟩ | ⟨hfault, heq | ⟨heq, -⟩⟩
    · rw [hput] at heq
      obtain ⟨hr, hw⟩ := Prod.mk.inj heq
      exact .inl ⟨hp, .inl hr, fun k => by rw [hw, hstore]⟩
    · exact .inr ⟨by rw [heq], .inr hfault⟩
    · rw [hput] at heq
      exact .inl ⟨hp, .inr hfault, fun k => by rw [heq, hstore]⟩

theorem Genuine.cases (h : Genuine m) :
    m.after.store = m.before.store ∨
      ∃ v rec, m.event.1 = .put v rec ∧
        MemStore.permits (m.before.store.lookup rec.key) v = true ∧
        ∀ k, m.after.store.lookup k =
          if rec.key = k then some { rec with version := v + 1 } else m.before.store.lookup k := by
  rcases hev : m.event with ⟨o, r⟩
  cases o with
  | get k => exact .inl (h.told_get ⟨rfl, hev⟩).1
  | list => exact .inl (h.told_list ⟨rfl, hev⟩).1
  | now => exact .inl (h.told_now ⟨rfl, hev⟩)
  | ctxDone => exact .inl (h.told_ctxDone ⟨rfl, hev⟩)
  | put v rec =>
    rcases h.told_put ⟨rfl, hev⟩ with ⟨hp, -, hstore⟩ | ⟨heq, -⟩
    · exact .inr ⟨v, rec, rfl, hp, hstore⟩
    · exact .inl heq

/-- A moment makes records newer. -/
theorem Genuine.newer (h : Genuine m) (k : Key) :
    MemStore.Newer (m.before.store.lookup k) (m.after.store.lookup k) := by
  rcases h.cases with heq | ⟨v, rec, -, hp, hstore⟩
  · rw [heq]
    exact .refl _
  rw [hstore]
  split
  · next hk => exact hk ▸ MemStore.newer_of_permits hp
  · exact .refl _

/-- A moment that replaces version `v` leaves a higher one. -/
theorem Genuine.version_lt {v : Int} (h : Genuine m) (hr : Replaces k v m) :
    ∃ r, m.after.store.lookup k = some r ∧ v < r.version := by
  obtain ⟨hchange, hver⟩ := hr
  obtain ⟨r, hr, rfl⟩ := Option.map_eq_some_iff.mp hver
  rcases h.newer k with heq | ⟨r', hr', hlt⟩
  · exact absurd heq hchange
  · exact ⟨r', hr', hlt r hr⟩

theorem Genuine.filled (h : Genuine m) (hf : m.before.store.Filled) : m.after.store.Filled := by
  rcases h.cases with heq | ⟨v, rec, -, hp, hstore⟩
  · rw [heq]
    exact hf
  intro k r hr
  rw [hstore] at hr
  split at hr
  · next hk =>
    cases hr
    refine ⟨hk, ?_⟩
    show 1 ≤ v + 1
    by_cases hv : v = 0
    · omega
    · obtain ⟨r', hr', hver⟩ := MemStore.permits_version hv hp
      have := (hf _ _ hr').2
      omega
  · exact hf k r hr

/-! ## What a part of a run does -/

namespace Stretch

theorem newer (h : Stretch cfg w ms w') (k : Key) :
    MemStore.Newer (w.store.lookup k) (w'.store.lookup k) := by
  refine h.linked.rel (Q := fun (w w' : World) => MemStore.Newer (w.store.lookup k) (w'.store.lookup k))
    ?_ MemStore.Newer.trans fun m hm => (h.genuine m hm).newer k
  intro a b hab
  rw [show b.store = a.store from hab]
  exact .refl _

theorem filled_end (h : Stretch cfg w ms w') : w'.store.Filled := by
  refine h.linked.rel (Q := fun (w w' : World) => w.store.Filled → w'.store.Filled) ?_
    (fun h₁ h₂ hf => h₂ (h₁ hf)) (fun m hm => (h.genuine m hm).filled) h.filled
  intro a b hab hf
  rw [show b.store = a.store from hab]
  exact hf

/-- A record that is not what it was has been changed at some moment. -/
theorem exists_changes (h : Stretch cfg w ms w') (hne : w'.store.lookup k ≠ w.store.lookup k) :
    ∃ m ∈ ms, Changes k m := by
  by_contra hno
  apply hne
  refine h.linked.rel (Q := fun (w w' : World) => w'.store.lookup k = w.store.lookup k) ?_
    (fun h₁ h₂ => h₂.trans h₁) fun m hm => ?_
  · intro a b hab
    rw [show b.store = a.store from hab]
  · by_contra hc
    exact hno ⟨m, hm, hc⟩

/-- The compare-and-swap over a stretch: a write expecting the version
found at its start is let through exactly if the record is untouched. -/
theorem permits_iff (h : Stretch cfg w ms w') :
    MemStore.permits (w'.store.lookup k) (((w.store.lookup k).map Record.version).getD 0) = true ↔
      w'.store.lookup k = w.store.lookup k := by
  constructor
  · exact (h.newer k).eq_of_permits h.filled
  · intro heq
    rw [heq]
    exact MemStore.permits_current h.filled

/-- A moment in the middle of a stretch. -/
theorem of_append_cons {ms₁ ms₂ : List (Moment (machine cfg))}
    (h : Stretch cfg w (ms₁ ++ m :: ms₂) w') :
    Stretch cfg w ms₁ m.before ∧ Genuine m ∧ Stretch cfg m.after ms₂ w' := by
  obtain ⟨h₁, h₂⟩ := h.linked.of_append_cons
  have hm := h.genuine m (List.mem_append_right _ List.mem_cons_self)
  have hs₁ : Stretch cfg w ms₁ m.before :=
    ⟨h₁, fun m' hm' => h.genuine m' (List.mem_append_left _ hm'), h.filled⟩
  exact ⟨hs₁, hm, h₂, fun m' hm' => h.genuine m' (List.mem_append_right _ (List.mem_cons_of_mem _ hm')),
    hm.filled hs₁.filled_end⟩

/-- No version of a record is replaced twice. -/
theorem replaces_once (h : Stretch cfg w ms w') :
    ms.Pairwise fun m m' => ∀ k v, Replaces k v m → ¬ Replaces k v m' := by
  induction ms generalizing w with
  | nil => exact .nil
  | cons m ms ih =>
    obtain ⟨-, hm, hrest⟩ := (show Stretch cfg w ([] ++ m :: ms) w' from h).of_append_cons
    refine .cons ?_ (ih hrest)
    intro m' hm' k v hr hr'
    obtain ⟨ms₁, ms₂, rfl⟩ := List.append_of_mem hm'
    obtain ⟨r, hr₁, hlt⟩ := (hrest.of_append_cons.1.newer k).version_lt (hm.version_lt hr)
    have hver := hr'.2
    rw [hr₁, Option.map_some, Option.some.injEq] at hver
    omega

end Stretch

/-! ## Along the text of a call

One lemma per operation: the call stands before it still, or the moments
are cut at it. -/

section Walk

variable {α : Type} {q : Prog StoreSig α}

/-- Thread `i` waits for an answer still and ends up at `q`, or the
moments are cut where it came. -/
def Reached {R : Type} (i : Nat) (told : R → Moment (machine cfg) → Prop)
    (k : R → Prog StoreSig α) (ms : List (Moment (machine cfg))) (q : Prog StoreSig α) : Prop :=
  (q.result? = none ∧ ∀ m ∈ ms, m.tid ≠ i) ∨
    ∃ (pre : List (Moment (machine cfg))) (m : Moment (machine cfg)) (r : R)
      (post : List (Moment (machine cfg))),
      ms = pre ++ m :: post ∧ (∀ m ∈ pre, m.tid ≠ i) ∧ told r m ∧ Follows i (k r) post q

theorem follows_step {o : StoreOp} {k : o.Res → Prog StoreSig α}
    (h : Follows i ((Prog.perform (S := StoreSig) o).bind k) ms q) :
    Reached i (Told i o) k ms q := by
  rcases Follows.of_op h with ⟨rfl, hms⟩ | ⟨pre, r, s, s', post, rfl, hpre, hpost⟩
  · exact .inl ⟨rfl, hms⟩
  · exact .inr ⟨pre, ⟨i, ⟨o, r⟩, s, s'⟩, r, post, rfl, hpre, ⟨rfl, rfl⟩, hpost⟩

theorem follows_get {key : Key} {k : Except Err Record → Prog StoreSig α}
    (h : Follows i (Store.get key >>= k) ms q) :
    Reached (R := Except Err Record) i (Told i (.get key)) k ms q :=
  follows_step h

theorem follows_list {k : Except Err (List Record) → Prog StoreSig α}
    (h : Follows i (Store.list >>= k) ms q) :
    Reached (R := Except Err (List Record)) i (Told i .list) k ms q :=
  follows_step h

theorem follows_put {v : Int} {rec : Record} {k : Except Err Unit → Prog StoreSig α}
    (h : Follows i (Store.put v rec >>= k) ms q) :
    Reached (R := Except Err Unit) i (Told i (.put v rec)) k ms q :=
  follows_step h

theorem follows_now {k : Time → Prog StoreSig α} (h : Follows i (Store.now >>= k) ms q) :
    Reached (R := Time) i (Told i .now) k ms q :=
  follows_step h

theorem follows_ctxDone {k : Bool → Prog StoreSig α} (h : Follows i (Store.ctxDone >>= k) ms q) :
    Reached (R := Bool) i (Told i .ctxDone) k ms q :=
  follows_step h

end Walk

/-- A run of the server is a stretch. -/
theorem stretch_of_run {p q : Pool (machine cfg)} (h : Pool.Run p ms q)
    (hf : p.shared.store.Filled) : Stretch cfg p.shared ms q.shared where
  linked := by
    refine h.linked (fun _ => rfl) (fun h₁ h₂ => Eq.trans h₂ h₁) ?_ ?_
    · intro n c l s s' hs
      cases hs
      rfl
    · intro e s s' he
      obtain ⟨-, rfl⟩ := env_cases he
      rfl
  genuine := fun m hm => h.exec_of_mem hm
  filled := hf

end Berth.Server
