/-
Berth.Server.WorldTheorems — the discipline every call of the server
keeps, and one rule per store operation.

`World.Ok` is the invariant: the store is what its log says, the log is a
`History`, and with a single clock it is `Timely`. `Writes` is the one
thing a step may do to the shared state. A call decides a write from a
snapshot it read earlier; `Plan` records that decision, and `robust_put`
turns it into a legitimate write: the compare-and-swap only lets it
through if nothing was written to the key since the snapshot.
-/
import Berth.Interleave.PoolTheorems
import Berth.Lease.HistoryTheorems
import Berth.Server.World

namespace Berth.Server

open Berth.Interleave Berth.Lease Berth.Tenant Berth.Api

variable {cfg : Config} {i : Nat} {l : Loc} {w w' w'' : World} {α : Type}
variable {ch : Choice} {l' : Loc}

/-! ## Invariant and guarantee -/

/-- An HTTP call acts for a holder its identity was authorized for. -/
def Entitled (cfg : Config) (c : Call) : Prop :=
  ∀ req, c = .http req → ∃ op holder, requestOp req = some op ∧ op.holder? = some holder ∧
    authorize cfg.authz req.identity req.key.ns holder = .ok ()

/-- The invariant of the shared state. -/
structure World.Ok (cfg : Config) (w : World) : Prop where
  replay : ∀ k, w.store.lookup k = storedAt w.writes k
  history : History w.writes
  landed : ∀ x ∈ w.writes, x.landed ≤ w.clock
  timely : cfg.clock = .single → Timely w.writes
  called : ∀ x ∈ w.writes, x.op = x.call.op ∧ Entitled cfg x.call
  lasting : cfg.careful = true → ∀ x ∈ w.writes, x.Lasting

/-- Thread `i` took the world from `w` to `w'` by the write `x`. -/
structure Writes (cfg : Config) (i : Nat) (l : Loc) (x : Write Call) (w w' : World) : Prop where
  log : w'.writes = x :: w.writes
  clock : w'.clock = w.clock
  replay : ∀ k, w'.store.lookup k = if x.new.key = k then some x.new else w.store.lookup k
  tid : x.tid = i
  call : x.call = l.call
  op : x.op = x.call.op
  reading : x.reading = l.reading
  landed : x.landed = w.clock
  old : x.old = storedAt w.writes x.new.key
  legit : x.Legit
  entitled : Entitled cfg x.call
  timely : cfg.clock = .single → ∃ t, x.reading = some t ∧ t ≤ x.landed ∧
    ∀ y ∈ w.writes, y.new.key = x.new.key → y.landed ≤ t
  lasting : cfg.careful = true → x.Lasting

/-- What happens around a call: the log grows, the clock moves on. -/
def Later (w w' : World) : Prop := w.writes <:+ w'.writes ∧ w.clock ≤ w'.clock

theorem Later.refl (w : World) : Later w w := ⟨List.suffix_refl _, Int.le_refl _⟩

theorem Later.trans (h : Later w w') (h' : Later w' w'') : Later w w'' :=
  ⟨h.1.trans h'.1, Int.le_trans h.2 h'.2⟩

theorem Later.length_le (h : Later w w') : w.writes.length ≤ w'.writes.length := h.1.length_le

theorem Writes.later {x : Write Call} (h : Writes cfg i l x w w') : Later w w' := by
  refine ⟨?_, ?_⟩
  · rw [h.log]
    exact List.suffix_cons x w.writes
  · exact Int.le_of_eq h.clock.symm

theorem Writes.stored {x : Write Call} (h : Writes cfg i l x w w') :
    storedAt w'.writes x.new.key = some x.new := by
  rw [h.log, storedAt_cons_self]

/-- A write keeps the invariant. -/
theorem Writes.ok {x : Write Call} (h : Writes cfg i l x w w') (hw : w.Ok cfg) : w'.Ok cfg where
  replay := by
    intro k
    rw [h.replay, h.log, storedAt_cons, hw.replay]
  history := by
    rw [h.log]
    exact .cons hw.history h.legit h.old
  landed := by
    intro y hy
    rw [h.log] at hy
    rw [h.clock]
    rcases List.mem_cons.mp hy with rfl | hy
    · exact Int.le_of_eq h.landed
    · exact hw.landed y hy
  timely := by
    intro hc
    obtain ⟨t, hread, hland, hbefore⟩ := h.timely hc
    rw [h.log]
    exact .cons (hw.timely hc) hread hland hbefore
  called := by
    intro y hy
    rw [h.log] at hy
    rcases List.mem_cons.mp hy with rfl | hy
    · exact ⟨h.op, h.entitled⟩
    · exact hw.called y hy
  lasting := by
    intro hc y hy
    rw [h.log] at hy
    rcases List.mem_cons.mp hy with rfl | hy
    · exact h.lasting hc
    · exact hw.lasting hc y hy

/-- The empty server satisfies the invariant. -/
theorem World.ok_new (t : Time) : (World.new t).Ok cfg where
  replay := fun k => by rw [World.new, MemStore.lookup_new, storedAt_nil]
  history := .nil
  landed := fun x hx => nomatch hx
  timely := fun _ => .nil
  called := fun x hx => nomatch hx
  lasting := fun _ x hx => nomatch hx

/-- The clock moving on keeps the invariant and interferes as expected. -/
theorem World.Ok.tick {t : Time} (hw : w.Ok cfg) (ht : w.clock ≤ t) :
    World.Ok cfg { w with clock := t } where
  replay := hw.replay
  history := hw.history
  landed := fun x hx => Int.le_trans (hw.landed x hx) ht
  timely := hw.timely
  called := hw.called
  lasting := hw.lasting

/-- Everything an environment step can do. -/
theorem env_cases {t : Time} (h : (machine cfg).env t w = some w') :
    w.clock ≤ t ∧ w' = { w with clock := t } := by
  simp only [machine] at h
  split at h
  · next hle => exact ⟨hle, (Option.some.inj h).symm⟩
  · cases h

/-- The discipline of the server's calls. -/
def discipline (cfg : Config) : Discipline (machine cfg) where
  adm := fun _ => True
  inv := World.Ok cfg
  unborn := fun _ _ => True
  guar := fun i l w w' => w' = w ∨ ∃ x, Writes cfg i l x w w'
  interf := fun _ _ w w' => Later w w'
  refl := fun _ _ w => Later.refl w
  trans := fun h h' => h.trans h'
  guar_inv := by
    intro i l w w' hw _ hg
    rcases hg with rfl | ⟨x, hx⟩
    · exact hw
    · exact hx.ok hw
  guar_interf := by
    intro i j l l' w w' _ hw _ hg
    rcases hg with rfl | ⟨x, hx⟩
    · exact Later.refl _
    · exact hx.later
  env_inv := by
    intro e w w' hw _ he
    obtain ⟨hle, rfl⟩ := env_cases he
    exact hw.tick hle
  env_interf := by
    intro e j l w w' hw _ he
    obtain ⟨hle, rfl⟩ := env_cases he
    exact ⟨List.suffix_refl _, hle⟩
  start_inv := by
    intro n c l w w' hw _ hs
    cases hs
    exact hw
  start_interf := by
    intro n c l j l' w w' _ hw _ hs
    cases hs
    exact Later.refl _
  unborn_interf := fun _ _ => trivial

/-! ## What each operation can do -/

theorem exec_get {k : Key} {r : Except Err Record}
    (h : exec cfg i ch (.get k) l w = some (r, l', w')) :
    w' = w ∧ l' = l.read w ∧
      (r = w.store.get k ∨ ∃ e, r = .error e ∧ backendFault e = true) := by
  cases ch with
  | answer =>
    cases h
    exact ⟨rfl, rfl, .inl rfl⟩
  | fault e =>
    simp only [exec] at h
    split at h
    · next hf =>
      cases h
      exact ⟨rfl, rfl, .inr ⟨e, rfl, hf⟩⟩
    · cases h
  | _ => cases h

theorem exec_list {r : Except Err (List Record)} (h : exec cfg i ch .list l w = some (r, l', w')) :
    w' = w ∧ l' = l.read w ∧
      ((∃ rs, r = .ok rs ∧ rs.Perm w.store.list) ∨ ∃ e, r = .error e ∧ backendFault e = true) := by
  cases ch with
  | order rs =>
    simp only [exec] at h
    split at h
    · next hp =>
      cases h
      exact ⟨rfl, rfl, .inl ⟨rs, rfl, List.isPerm_iff.mp hp⟩⟩
    · cases h
  | fault e =>
    simp only [exec] at h
    split at h
    · next hf =>
      cases h
      exact ⟨rfl, rfl, .inr ⟨e, rfl, hf⟩⟩
    · cases h
  | _ => cases h

theorem exec_now {t : Time} (h : exec cfg i ch .now l w = some (t, l', w')) :
    w' = w ∧ l' = l.stamp w t ∧ (cfg.clock = .single → t = w.clock) := by
  cases ch with
  | clock t' =>
    simp only [exec] at h
    split at h
    · next hr =>
      cases h
      refine ⟨rfl, rfl, fun hc => ?_⟩
      simpa [Config.reads, hc] using hr
    · cases h
  | _ => cases h

theorem exec_ctxDone {b : Bool} (h : exec cfg i ch .ctxDone l w = some (b, l', w')) :
    w' = w ∧ l' = l.touch w := by
  cases ch with
  | done b' =>
    cases h
    exact ⟨rfl, rfl⟩
  | _ => cases h

/-- A write attempt is applied or not, and the caller learns which unless
the backend fails. -/
theorem exec_put {v : Int} {rec : Record} {r : Except Err Unit}
    (h : exec cfg i ch (.put v rec) l w = some (r, l', w')) :
    l' = l.attempt w w' ∧
      (((r, w') = w.put i l v rec ∧ cfg.lets l w v rec = true) ∨
        (∃ e, r = .error e ∧ backendFault e = true) ∧
          (w' = w ∨ w' = (w.put i l v rec).2 ∧ cfg.lets l w v rec = true)) := by
  cases ch with
  | answer =>
    simp only [exec] at h
    split at h
    · next hlets =>
      cases h
      exact ⟨rfl, .inl ⟨rfl, hlets⟩⟩
    · cases h
  | fault e =>
    simp only [exec] at h
    split at h
    · next hf =>
      cases h
      exact ⟨rfl, .inr ⟨⟨e, rfl, hf⟩, .inl rfl⟩⟩
    · cases h
  | late e =>
    simp only [exec, Bool.and_eq_true] at h
    split at h
    · next hf =>
      cases h
      exact ⟨rfl, .inr ⟨⟨e, rfl, hf.1⟩, .inr ⟨rfl, hf.2⟩⟩⟩
    · cases h
  | _ => cases h

/-- No operation changes whose bookkeeping it is, or when that call arrived
and how much of the log it found. -/
theorem exec_origin {o : StoreOp} {r : o.Res} (h : exec cfg i ch o l w = some (r, l', w')) :
    l'.call = l.call ∧ l'.invokedAt = l.invokedAt ∧ l'.started = l.started := by
  cases o with
  | get k => rw [(exec_get h).2.1]; exact ⟨rfl, rfl, rfl⟩
  | list => rw [(exec_list h).2.1]; exact ⟨rfl, rfl, rfl⟩
  | put v rec => rw [(exec_put h).1]; exact ⟨rfl, rfl, rfl⟩
  | now => rw [(exec_now h).2.1]; exact ⟨rfl, rfl, rfl⟩
  | ctxDone => rw [(exec_ctxDone h).2]; exact ⟨rfl, rfl, rfl⟩

theorem backendFault_iff {e : Err} :
    backendFault e = true ↔ e.is .notFound = false ∧ e.is .conflict = false := by
  simp [backendFault]

/-- `Put` either conflicts and changes nothing, or appends its entry. -/
theorem put_cases (w : World) (i : Nat) (l : Loc) (v : Int) (rec : Record) :
    (MemStore.permits (w.store.lookup rec.key) v = false ∧
      w.put i l v rec = (.error errConflict, w)) ∨
    (MemStore.permits (w.store.lookup rec.key) v = true ∧
      ∃ w', w.put i l v rec = (.ok (), w') ∧ w'.writes = w.entry i l v rec :: w.writes ∧
        w'.clock = w.clock ∧
        ∀ k, w'.store.lookup k =
          if rec.key = k then some { rec with version := v + 1 } else w.store.lookup k) := by
  cases hp : MemStore.permits (w.store.lookup rec.key) v with
  | false =>
    refine .inl ⟨rfl, ?_⟩
    rw [World.put, MemStore.put_of_not_permits hp]
  | true =>
    have hput := MemStore.put_of_permits hp
    have heq : w.put i l v rec = (.ok (), (w.put i l v rec).2) := by
      simp only [World.put, hput]
    refine .inr ⟨rfl, (w.put i l v rec).2, heq, ?_, ?_, fun k => ?_⟩
    · simp only [World.put, hput]
    · simp only [World.put, hput]
    · simp only [World.put, hput]
      rw [(MemStore.put_ok hput).2 k]
      simp only [eq_comm]

/-! ## Rules -/

/-- A call that asks for `op`, as far as it has come. -/
structure Running (cfg : Config) (op : LeaseOp) (l : Loc) (w : World) : Prop where
  call : l.call.op = some op
  entitled : Entitled cfg l.call
  started : l.started ≤ w.writes.length
  invoked : cfg.clock = .single → l.invokedAt ≤ w.clock

theorem Running.later {op : LeaseOp} (h : Running cfg op l w) (he : Later w w') :
    Running cfg op l w' where
  call := h.call
  entitled := h.entitled
  started := Nat.le_trans h.started he.length_le
  invoked := fun hc => Int.le_trans (h.invoked hc) he.2

/-- Only the ghost fields that never change after the start matter. -/
theorem Running.relabel {op : LeaseOp} (h : Running cfg op l w) (hc : l'.call = l.call)
    (hs : l'.started = l.started) (hi : l'.invokedAt = l.invokedAt) :
    Running cfg op l' w where
  call := by rw [hc]; exact h.call
  entitled := by rw [hc]; exact h.entitled
  started := by rw [hs]; exact h.started
  invoked := by rw [hi]; exact h.invoked

theorem Running.read {op : LeaseOp} (h : Running cfg op l w) : Running cfg op (l.read w) w :=
  h.relabel rfl rfl rfl

/-- `ws₀` is the log as of the call's last read. -/
structure Snapshot (l : Loc) (w : World) (ws₀ : List (Write Call)) : Prop where
  past : ws₀ <:+ w.writes
  readAt : ws₀.length = l.readAt
  started : l.started ≤ l.readAt

theorem Snapshot.later {ws₀ : List (Write Call)} (h : Snapshot l w ws₀) (he : Later w w') :
    Snapshot l w' ws₀ := ⟨h.past.trans he.1, h.readAt, h.started⟩

theorem Running.snapshot {op : LeaseOp} (h : Running cfg op l w) :
    Snapshot (l.read w) w w.writes := ⟨List.suffix_refl _, rfl, h.started⟩

/-- `t` is the call's clock reading, taken after the snapshot. -/
structure Stamped (cfg : Config) (l : Loc) (w : World) (ws₀ : List (Write Call)) (t : Time) :
    Prop where
  reading : l.reading = some t
  now : cfg.clock = .single → l.invokedAt ≤ t ∧ t ≤ w.clock ∧ ∀ y ∈ ws₀, y.landed ≤ t

theorem Stamped.later {ws₀ : List (Write Call)} {t : Time} (h : Stamped cfg l w ws₀ t)
    (he : Later w w') : Stamped cfg l w' ws₀ t where
  reading := h.reading
  now := fun hc => ⟨(h.now hc).1, Int.le_trans (h.now hc).2.1 he.2, (h.now hc).2.2⟩

/-- The write of `rec` over version `v` was decided from the snapshot
`ws₀` at reading `t`. -/
structure Plan (cfg : Config) (op : LeaseOp) (l : Loc) (w : World) (ws₀ : List (Write Call))
    (t : Time) (v : Int) (rec : Record) : Prop where
  running : Running cfg op l w
  snapshot : Snapshot l w ws₀
  stamped : Stamped cfg l w ws₀ t
  version : v = ((storedAt ws₀ rec.key).map Record.version).getD 0
  transition : Transition op t (storedAt ws₀ rec.key) { rec with version := v + 1 }

section Rules

variable {op : LeaseOp} {ws₀ : List (Write Call)} {t : Time} {v : Int} {rec : Record}

theorem Plan.later (h : Plan cfg op l w ws₀ t v rec) (he : Later w w') :
    Plan cfg op l w' ws₀ t v rec where
  running := h.running.later he
  snapshot := h.snapshot.later he
  stamped := h.stamped.later he
  version := h.version
  transition := h.transition

/-- The compare-and-swap goes through exactly when the key is untouched
since the snapshot. -/
theorem Plan.permits_iff (h : Plan cfg op l w ws₀ t v rec) (hw : w.Ok cfg) :
    MemStore.permits (w.store.lookup rec.key) v = true ↔
      storedAt w.writes rec.key = storedAt ws₀ rec.key := by
  rw [hw.replay]
  have hv := h.version
  cases hst : storedAt ws₀ rec.key with
  | none =>
    rw [hst, Option.map_none, Option.getD_none] at hv
    subst hv
    constructor
    · exact MemStore.permits_zero
    · intro hn
      rw [hn]
      rfl
  | some r =>
    rw [hst, Option.map_some, Option.getD_some] at hv
    obtain ⟨x, hx, hxr, hrk⟩ := mem_of_storedAt hst
    have hpos := (hw.history.suffix h.snapshot.past).version_pos hx
    rw [hxr, ← hv] at hpos
    constructor
    · intro hp
      obtain ⟨r', hr', hrv⟩ := MemStore.permits_version (by omega) hp
      have := hw.history.stored_eq_of_version (h.snapshot.past.subset hx) (hxr ▸ hrk) hr'
        (by rw [hxr, ← hv, hrv])
      rw [hr', this, hxr]
    · intro heq
      rw [heq]
      have hne : v ≠ 0 := by omega
      simp [MemStore.permits, hne, ← hv]

theorem prudent_of_lets (h : cfg.lets l w v rec = true) (hc : cfg.careful = true) :
    w.prudent l v rec = true := by
  simpa [Config.lets, hc] using h

/-- A prudent write that goes through shortens no tenure. -/
theorem lasting_of_prudent (h : w.prudent l v rec = true)
    (hp : MemStore.permits (w.store.lookup rec.key) v = true) : (w.entry i l v rec).Lasting := by
  intro r hold hd tok hcont
  have hlook : w.store.lookup rec.key = some r := hold
  obtain ⟨hold', hh, ht⟩ := hcont
  rw [hold] at hold'
  unfold World.prudent at h
  rw [hlook] at h hp
  simp only [hp, if_true, Bool.not_eq_true', Bool.and_eq_false_iff, decide_eq_false_iff_not] at h
  rcases h with h | h
  · refine absurd ⟨?_, ?_⟩ h
    · exact hold'.1.trans hh.symm
    · exact hold'.2.trans ht.symm
  · exact Int.not_lt.mp h

/-- A prudent release that loses its compare-and-swap finds the tenure
ended. -/
theorem not_held_of_prudent {k : Key} {hd : String} {tok : Int}
    (h : w.prudent l v rec = true) (hop : l.call.op = some (.release k hd tok))
    (hp : MemStore.permits (w.store.lookup rec.key) v = false) :
    ¬ HeldBy hd tok (w.store.lookup rec.key) := by
  unfold World.prudent at h
  split at h
  · next hnone =>
    rw [hnone]
    exact heldBy_none
  · next r hsome =>
    rw [hsome] at hp ⊢
    simp only [hp, hop, Bool.false_eq_true, if_false, Bool.not_eq_true',
      decide_eq_false_iff_not] at h
    exact h

/-- A planned write that goes through is a legitimate one. -/
theorem Plan.writes (h : Plan cfg op l w ws₀ t v rec) (hw : w.Ok cfg)
    (hlog : w'.writes = w.entry i l v rec :: w.writes) (hclock : w'.clock = w.clock)
    (hstore : ∀ k, w'.store.lookup k =
      if rec.key = k then some { rec with version := v + 1 } else w.store.lookup k)
    (heq : storedAt w.writes rec.key = storedAt ws₀ rec.key)
    (hlets : cfg.lets l w v rec = true) :
    Writes cfg i l (w.entry i l v rec) w w' where
  log := hlog
  clock := hclock
  replay := hstore
  tid := rfl
  call := rfl
  op := rfl
  reading := rfl
  landed := rfl
  old := hw.replay rec.key
  legit := by
    refine ⟨op, t, h.running.call, h.stamped.reading, ?_⟩
    show Transition op t (w.store.lookup rec.key) { rec with version := v + 1 }
    rw [hw.replay, heq]
    exact h.transition
  entitled := h.running.entitled
  timely := by
    intro hc
    refine ⟨t, h.stamped.reading, (h.stamped.now hc).2.1, fun y hy hk => ?_⟩
    exact (h.stamped.now hc).2.2 y (hw.history.mem_of_unchanged h.snapshot.past heq hy hk)
  lasting := fun hc => lasting_of_prudent (prudent_of_lets hlets hc)
    ((h.permits_iff hw).mpr heq)

variable {Q : α → Loc → World → Prop}

theorem robust_get {k : Key} {cont : Except Err Record → Prog StoreSig α}
    (hok : ∀ w' cur, Later w w' → w'.Ok cfg → storedAt w'.writes k = some cur →
      Robust (discipline cfg) i (cont (.ok cur)) Q (l.read w') w')
    (hnone : ∀ w', Later w w' → w'.Ok cfg → storedAt w'.writes k = none →
      Robust (discipline cfg) i (cont (.error errNotFound)) Q (l.read w') w')
    (hfault : ∀ w' e, Later w w' → w'.Ok cfg → backendFault e = true →
      Robust (discipline cfg) i (cont (.error e)) Q (l.read w') w') :
    Robust (discipline cfg) i ((Store.get k).bind cont) Q l w := by
  intro w' he hw ch r l' w'' hex _
  obtain ⟨rfl, rfl, hr⟩ := exec_get (show exec cfg i ch (.get k) l w' = some (r, l', w'') from hex)
  refine ⟨.inl rfl, ?_⟩
  rcases hr with rfl | ⟨e, rfl, hf⟩
  · rw [MemStore.get, hw.replay]
    cases hst : storedAt w''.writes k with
    | none => exact hnone w'' he hw hst
    | some cur => exact hok w'' cur he hw hst
  · exact hfault w'' e he hw hf

theorem robust_list {cont : Except Err (List Record) → Prog StoreSig α}
    (hok : ∀ w' rs, Later w w' → w'.Ok cfg →
      (∀ r ∈ rs, storedAt w'.writes r.key = some r) →
      Robust (discipline cfg) i (cont (.ok rs)) Q (l.read w') w')
    (hfault : ∀ w' e, Later w w' → w'.Ok cfg → backendFault e = true →
      Robust (discipline cfg) i (cont (.error e)) Q (l.read w') w') :
    Robust (discipline cfg) i (Store.list.bind cont) Q l w := by
  intro w' he hw ch r l' w'' hex _
  obtain ⟨rfl, rfl, hr⟩ := exec_list (show exec cfg i ch .list l w' = some (r, l', w'') from hex)
  refine ⟨.inl rfl, ?_⟩
  rcases hr with ⟨rs, rfl, hp⟩ | ⟨e, rfl, hf⟩
  · refine hok w'' rs he hw fun r hr => ?_
    obtain ⟨⟨k, r'⟩, hmem, rfl⟩ := List.mem_map.mp (hp.mem_iff.mp hr)
    have hlook : storedAt w''.writes k = some r' := by
      rw [← hw.replay]
      exact AList.mem_lookup_iff.mpr hmem
    obtain ⟨_, _, _, hk⟩ := mem_of_storedAt hlook
    rw [← hk] at hlook
    exact hlook
  · exact hfault w'' e he hw hf

theorem robust_now {cont : Time → Prog StoreSig α}
    (h : ∀ w' t, Later w w' → w'.Ok cfg → (cfg.clock = .single → t = w'.clock) →
      Robust (discipline cfg) i (cont t) Q (l.stamp w' t) w') :
    Robust (discipline cfg) i (Store.now.bind cont) Q l w := by
  intro w' he hw ch r l' w'' hex _
  obtain ⟨rfl, rfl, hc⟩ := exec_now (show exec cfg i ch .now l w' = some (r, l', w'') from hex)
  exact ⟨.inl rfl, h w'' r he hw hc⟩

theorem robust_ctxDone {cont : Bool → Prog StoreSig α}
    (h : ∀ w' b, Later w w' → w'.Ok cfg →
      Robust (discipline cfg) i (cont b) Q (l.touch w') w') :
    Robust (discipline cfg) i (Store.ctxDone.bind cont) Q l w := by
  intro w' he hw ch r l' w'' hex _
  obtain ⟨rfl, rfl⟩ := exec_ctxDone (show exec cfg i ch .ctxDone l w' = some (r, l', w'') from hex)
  exact ⟨.inl rfl, h w'' r he hw⟩

theorem robust_put {cont : Except Err Unit → Prog StoreSig α}
    (hplan : Plan cfg op l w ws₀ t v rec)
    (hok : ∀ w' w'', Later w w' → w''.Ok cfg → Writes cfg i l (w'.entry i l v rec) w' w'' →
      Robust (discipline cfg) i (cont (.ok ())) Q (l.attempt w' w'') w'')
    (hconf : ∀ w', Later w w' → w'.Ok cfg →
      storedAt w'.writes rec.key ≠ storedAt ws₀ rec.key →
      (cfg.careful = true → ∀ k hd tok, l.call.op = some (.release k hd tok) →
        ¬ HeldBy hd tok (storedAt w'.writes rec.key)) →
      Robust (discipline cfg) i (cont (.error errConflict)) Q (l.attempt w' w') w')
    (hfault : ∀ w' w'' e, Later w w' → Later w' w'' → w''.Ok cfg → backendFault e = true →
      Robust (discipline cfg) i (cont (.error e)) Q (l.attempt w' w'') w'') :
    Robust (discipline cfg) i ((Store.put v rec).bind cont) Q l w := by
  intro w' he hw ch r l' w'' hex _
  have hplan' := hplan.later he
  obtain ⟨rfl, hr⟩ := exec_put (show exec cfg i ch (.put v rec) l w' = some (r, l', w'') from hex)
  rcases put_cases w' i l v rec with ⟨hno, hput⟩ | ⟨hyes, w₁, hput, hlog, hclock, hstore⟩
  · -- the compare-and-swap fails: no write, whatever the caller sees
    have hne : storedAt w'.writes rec.key ≠ storedAt ws₀ rec.key := by
      intro heq
      rw [(hplan'.permits_iff hw).mpr heq] at hno
      cases hno
    rw [hput] at hr
    rcases hr with ⟨hr, hlets⟩ | ⟨⟨e, rfl, hf⟩, hr⟩
    · obtain ⟨rfl, rfl⟩ := Prod.mk.inj hr
      refine ⟨.inl rfl, hconf w'' he hw hne fun hc k hd tok hop => ?_⟩
      rw [← hw.replay]
      exact not_held_of_prudent (prudent_of_lets hlets hc) hop hno
    · have hsame : w'' = w' := by
        rcases hr with rfl | ⟨rfl, _⟩
        · rfl
        · rfl
      subst hsame
      exact ⟨.inl rfl, hfault w'' w'' e he (Later.refl _) hw hf⟩
  · have hwr := hplan'.writes (i := i) hw hlog hclock hstore
      ((hplan'.permits_iff hw).mp hyes)
    rw [hput] at hr
    rcases hr with ⟨hr, hlets⟩ | ⟨⟨e, rfl, hf⟩, rfl | ⟨rfl, hlets⟩⟩
    · obtain ⟨rfl, rfl⟩ := Prod.mk.inj hr
      exact ⟨.inr ⟨_, hwr hlets⟩, hok w' w'' he ((hwr hlets).ok hw) (hwr hlets)⟩
    · exact ⟨.inl rfl, hfault w'' w'' e he (Later.refl _) hw hf⟩
    · exact ⟨.inr ⟨_, hwr hlets⟩, hfault w' _ e he (hwr hlets).later ((hwr hlets).ok hw) hf⟩

theorem robust_ret {a : α} (h : ∀ w', Later w w' → w'.Ok cfg → Q a l w') :
    Robust (discipline cfg) i (.ret a) Q l w := h

end Rules

end Berth.Server
