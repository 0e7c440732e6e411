/-
Berth.Server.ManagerTheorems — every call of the server, in every
interleaving, only makes writes of a `History`, and what each call's
result says about the store.

The proofs follow the programs: one rule of `WorldTheorems` per store
operation. `decideAcquire_claim` is the point where the code's decision
becomes a transition. The conclusion for whole runs is `server_ok`
(`Server/ServerTheorems.lean`).
-/
import Berth.Server.WorldTheorems

namespace Berth.Server

open Berth.Interleave Berth.Lease Berth.Tenant Berth.Api

variable {cfg : Config} {i : Nat} {l : Loc} {w w' : World}
variable {key : Key} {holder : String} {token : Int} {ttl : Duration}
variable {ws₀ : List (Write Call)}

/-! ## What results say -/

/-- `res` reports a record that this call wrote for `h`. -/
def Granted (cfg : Config) (i : Nat) (l : Loc) (w : World) (k : Key) (h : String)
    (ttl : Duration) (res : AcquireResult) : Prop :=
  ∃ x ∈ w.writes, x.tid = i ∧ x.call = l.call ∧ x.new.key = k ∧ x.new.holder = h ∧ h ≠ "" ∧
    x.new.ttl = ttl ∧ res = x.new.toResult true ∧
    (cfg.clock = .single → l.invokedAt ≤ x.new.renewedAt)

/-- While the call ran, there was an instant at which `k` was not held by
`h` under `t`. -/
def Vacated (l : Loc) (w : World) (k : Key) (h : String) (t : Int) : Prop :=
  AtInstant w.writes l.started l.last k (fun o => ¬ HeldBy h t o)

/-- While the call ran, there was an instant at which `k` was not held by
`h` under `t`, or was expired at the call's clock reading. -/
def Lapsed (l : Loc) (w : World) (k : Key) (h : String) (t : Int) : Prop :=
  AtInstant w.writes l.started l.last k
    (fun o => ¬ HeldBy h t o ∨ expiredAt o l.reading = true)

/-- Between the read and the write of the call's attempt, another write
continued the very tenure the attempt was about. -/
def Overtaken (l : Loc) (w : World) (k : Key) (h : String) (t : Int) : Prop :=
  ∃ a b n x, l.window = some (a, b) ∧ a ≤ n ∧ n < b ∧ IsWrite w.writes n x ∧
    x.new.key = k ∧ x.Continues h t

theorem Granted.later {k : Key} {h : String} {res : AcquireResult}
    (hg : Granted cfg i l w k h ttl res) (he : Later w w') : Granted cfg i l w' k h ttl res := by
  obtain ⟨x, hx, hrest⟩ := hg
  exact ⟨x, he.1.subset hx, hrest⟩

theorem Overtaken.later {k : Key} {h : String} {t : Int} (ho : Overtaken l w k h t)
    (he : Later w w') : Overtaken l w' k h t := by
  obtain ⟨a, b, n, x, hwin, han, hnb, ⟨ws₀, hws, hlen⟩, hrest⟩ := ho
  exact ⟨a, b, n, x, hwin, han, hnb, ⟨ws₀, hws.trans he.1, hlen⟩, hrest⟩

/-- A write that was made over the snapshot's record is what it reports. -/
theorem Writes.granted {op : LeaseOp} {t : Time} {v : Int} {rec : Record} {w'' : World}
    (hplan : Plan cfg op l w ws₀ t v rec) (hwr : Writes cfg i l (w'.entry i l v rec) w' w'')
    (hk : rec.key = key) (hh : rec.holder = holder) (hne : holder ≠ "") (httl : rec.ttl = ttl)
    (hread : rec.renewedAt = t) :
    Granted cfg i (l.attempt w' w'') w'' key holder ttl (rec.toResult true) := by
  refine ⟨w'.entry i l v rec, ?_, rfl, rfl, hk, hh, hne, httl, rfl, fun hc => ?_⟩
  · rw [hwr.log]
    exact List.mem_cons_self
  · show l.invokedAt ≤ rec.renewedAt
    rw [hread]
    exact (hplan.stamped.now hc).1

/-- The clock reading that follows a snapshot. -/
theorem stamped_of_now {op : LeaseOp} {t : Time} (hrun : Running cfg op l w)
    (hsnap : Snapshot l w ws₀) (hw : w.Ok cfg) (ht : cfg.clock = .single → t = w.clock) :
    Stamped cfg (l.stamp w t) w ws₀ t where
  reading := rfl
  now := by
    intro hc
    rw [ht hc]
    refine ⟨hrun.invoked hc, Int.le_refl _, fun y hy => hw.landed y (hsnap.past.subset hy)⟩

/-- A change of the record that was read, decided at the reading that
follows. -/
theorem Plan.of_read {op : LeaseOp} {cur rec : Record} {t : Time} (hrun : Running cfg op l w)
    (he : Later w w') (hw : w'.Ok cfg) (ht : cfg.clock = .single → t = w'.clock)
    (hcur : storedAt w.writes rec.key = some cur)
    (htr : Transition op t (some cur) { rec with version := cur.version + 1 }) :
    Plan cfg op ((l.read w).stamp w' t) w' w.writes t cur.version rec where
  running := (hrun.read.later he).relabel rfl rfl rfl
  snapshot :=
    have hsnap := hrun.snapshot.later he
    ⟨hsnap.past, hsnap.readAt, hsnap.started⟩
  stamped := stamped_of_now (hrun.read.later he) (hrun.snapshot.later he) hw ht
  version := by rw [hcur]; rfl
  transition := hcur ▸ htr

/-! ## Acquire -/

/-- What the switch in `Manager.Acquire` claims is a transition. -/
theorem decideAcquire_claim {cur : Option Record} {now : Time} {v tok : Int} {acq : Time}
    (h : Manager.decideAcquire cur holder now = .claim v tok acq) (hne : holder ≠ "")
    (hpos : 0 < ttl) (hk : ∀ r, cur = some r → r.key = key) :
    v = (cur.map Record.version).getD 0 ∧
      Transition (.acquire key holder ttl) now cur
        { key := key, holder := holder, ttl := ttl, acquiredAt := acq, renewedAt := now
          fencingToken := tok, version := v + 1 } := by
  cases cur with
  | none =>
    simp only [Manager.decideAcquire, Manager.Decision.claim.injEq] at h
    obtain ⟨rfl, rfl, rfl⟩ := h
    exact ⟨rfl, .create hne hpos⟩
  | some r =>
    have hrk := hk r rfl
    simp only [Manager.decideAcquire] at h
    split at h
    · next hmine =>
      simp only [Bool.and_eq_true, beq_iff_eq, Bool.not_eq_true', Record.expired_eq_false_iff]
        at hmine
      simp only [Manager.Decision.claim.injEq] at h
      obtain ⟨rfl, rfl, rfl⟩ := h
      refine ⟨rfl, ?_⟩
      have hext := Transition.extend hne hpos hrk hmine.1 hmine.2
      rw [hrk, hmine.1] at hext
      exact hext
    · split at h
      · next hfree =>
        simp only [Bool.or_eq_true, Record.tombstone_iff, Record.expired_iff] at hfree
        split at h
        · cases h
        rename_i hmax
        simp only [Manager.Decision.claim.injEq] at h
        obtain ⟨rfl, rfl, rfl⟩ := h
        exact ⟨rfl, .reclaim hne hpos hrk hfree hmax⟩
      · cases h

/-- The acquisition's result is the record it wrote. -/
def AcquirePost (cfg : Config) (i : Nat) (key : Key) (holder : String) (ttl : Duration)
    (a : Except Err AcquireResult) (l : Loc) (w : World) : Prop :=
  ∀ res, a = .ok res → res.acquired = true → Granted cfg i l w key holder ttl res

theorem AcquirePost.later {a : Except Err AcquireResult}
    (h : AcquirePost cfg i key holder ttl a l w) (he : Later w w') :
    AcquirePost cfg i key holder ttl a l w' :=
  fun res heq hacq => (h res heq hacq).later he

theorem robust_acquireAttempt {retry : Prog StoreSig (Except Err AcquireResult)} (hne : holder ≠ "")
    (hpos : 0 < ttl) (hrun : Running cfg (.acquire key holder ttl) l w) (hsnap : Snapshot l w ws₀)
    (hretry : ∀ l' w', Running cfg (.acquire key holder ttl) l' w' →
      Robust (discipline cfg) i retry (AcquirePost cfg i key holder ttl) l' w') :
    Robust (discipline cfg) i
      (Manager.acquireAttempt key holder ttl (storedAt ws₀ key) retry)
      (AcquirePost cfg i key holder ttl) l w := by
  refine robust_now fun w₁ now he₁ hw₁ hnow => ?_
  have hrun₁ := hrun.later he₁
  have hsnap₁ := hsnap.later he₁
  cases hd : Manager.decideAcquire (storedAt ws₀ key) holder now with
  | heldBy r =>
    refine robust_ret fun w' _ _ res heq hacq => ?_
    cases heq
    cases hacq
  | exhausted =>
    refine robust_ret fun w' _ _ res heq hacq => ?_
    cases heq
  | claim v tok acq =>
    obtain ⟨hv, htr⟩ := decideAcquire_claim hd hne hpos
      (fun r hr => (mem_of_storedAt hr).choose_spec.2.2)
    have hplan : Plan cfg (.acquire key holder ttl) (l.stamp w₁ now) w₁ ws₀ now v
        { key := key, holder := holder, ttl := ttl, acquiredAt := acq, renewedAt := now
          fencingToken := tok, version := 0 } :=
      { running := hrun₁.relabel rfl rfl rfl
        snapshot := ⟨hsnap₁.past, hsnap₁.readAt, hsnap₁.started⟩
        stamped := stamped_of_now hrun₁ hsnap₁ hw₁ hnow
        version := hv
        transition := htr }
    refine robust_put hplan ?_ ?_ ?_
    · intro w₂ w₃ he₂ hw₃ hwr
      refine robust_ret fun w' he _ res heq _ => ?_
      cases heq
      exact (hwr.granted hplan rfl rfl hne rfl rfl).later he
    · intro w₂ he₂ hw₂ _ _
      exact hretry _ _ ((hrun₁.later he₂).relabel rfl rfl rfl)
    · intro w₂ w₃ e he₂ he₃ hw₃ hf
      simp only [(backendFault_iff.mp hf).2]
      refine robust_ret fun w' _ _ res heq _ => ?_
      cases heq

theorem robust_acquireLoop (n : Nat) (hne : holder ≠ "") (hpos : 0 < ttl)
    (hrun : Running cfg (.acquire key holder ttl) l w) :
    Robust (discipline cfg) i (Manager.acquireLoop key holder ttl n)
      (AcquirePost cfg i key holder ttl) l w := by
  induction n generalizing l w with
  | zero =>
    refine robust_ret fun w' _ _ res heq _ => ?_
    cases heq
  | succ n ih =>
    refine robust_get ?_ ?_ ?_
    · intro w₁ cur he hw hcur
      have hrun₁ := hrun.later he
      have hatt := robust_acquireAttempt (i := i) hne hpos hrun₁.read hrun₁.snapshot
        (fun l' w' hr => ih hr)
      rw [hcur] at hatt
      exact hatt
    · intro w₁ he hw hcur
      have hrun₁ := hrun.later he
      have hatt := robust_acquireAttempt (i := i) hne hpos hrun₁.read hrun₁.snapshot
        (fun l' w' hr => ih hr)
      rw [hcur] at hatt
      exact hatt
    · intro w₁ e he hw hf
      simp only [(backendFault_iff.mp hf).1]
      refine robust_ret fun w' _ _ res heq _ => ?_
      cases heq

theorem robust_acquire (hrun : Running cfg (.acquire key holder ttl) l w) :
    Robust (discipline cfg) i (Manager.acquire key holder ttl)
      (AcquirePost cfg i key holder ttl) l w := by
  have hfail : ∀ e : Err, Robust (discipline cfg) i (.ret (.error e))
      (AcquirePost cfg i key holder ttl) l w :=
    fun e => robust_ret fun w' _ _ res heq _ => nomatch heq
  unfold Manager.acquire
  split
  · exact hfail _
  split
  · exact hfail _
  rename_i hv
  split
  · exact hfail _
  · next httl =>
    exact robust_acquireLoop _ (validateHolder_ne_empty hv) (Int.not_le.mp httl) hrun

/-! ## A lost compare-and-swap -/

/-- If the key changed under a call that had read it as held by `h` under
`t`, then either `h` lost it meanwhile or a write of the same tenure got
in between. -/
theorem conflict_cases {h : String} {t : Int} (hsnap : Snapshot l w ws₀) (hw : w.Ok cfg)
    (hheld : HeldBy h t (storedAt ws₀ key)) (hne : storedAt w.writes key ≠ storedAt ws₀ key) :
    Vacated (l.attempt w w) w key h t ∨ Overtaken (l.attempt w w) w key h t := by
  obtain ⟨x, ws₁, hx, hws, hxk, hold⟩ := hw.history.first_change hsnap.past hne
  have hlen := hws.length_le
  have hlast := hx.length_le
  rw [List.length_cons] at hlast
  rw [hsnap.readAt] at hlen
  by_cases hnew : HeldBy h t (some x.new)
  · refine .inr ⟨l.readAt, w.writes.length, ws₁.length, x, rfl, hlen, by omega, ⟨ws₁, hx, rfl⟩,
      hxk, ?_, hnew⟩
    rw [hold]
    exact hheld
  · refine .inl ⟨x :: ws₁, hx, ?_, ?_, ?_⟩
    · show l.started ≤ ws₁.length + 1
      have := hsnap.started
      omega
    · exact hx.length_le
    · rw [← hxk, storedAt_cons_self]
      exact hnew

/-! ## Renew -/

def RenewPost (cfg : Config) (i : Nat) (key : Key) (holder : String) (token : Int)
    (ttl : Duration) (a : Except Err AcquireResult) (l : Loc) (w : World) : Prop :=
  ∀ res, a = .ok res →
    (res.acquired = true → Granted cfg i l w key holder ttl res ∧ res.fencingToken = token) ∧
    (res.acquired = false → Lapsed l w key holder token ∨ Overtaken l w key holder token)

theorem RenewPost.later {a : Except Err AcquireResult}
    (h : RenewPost cfg i key holder token ttl a l w) (he : Later w w') :
    RenewPost cfg i key holder token ttl a l w' := by
  intro res heq
  obtain ⟨hyes, hno⟩ := h res heq
  refine ⟨fun hacq => ⟨(hyes hacq).1.later he, (hyes hacq).2⟩, fun hacq => ?_⟩
  rcases hno hacq with h | h
  · exact .inl (h.mono he.1 (Nat.le_refl _) fun _ ho => ho)
  · exact .inr (h.later he)

/-- A renewal that reports a loss and still has its reason. -/
theorem robust_renew_lost {res : AcquireResult} (hres : res.acquired = false)
    (h : Lapsed l w key holder token ∨ Overtaken l w key holder token) :
    Robust (discipline cfg) i (.ret (.ok res)) (RenewPost cfg i key holder token ttl) l w := by
  have hpost : RenewPost cfg i key holder token ttl (.ok res) l w := by
    intro res' heq
    cases heq
    refine ⟨fun hacq => ?_, fun _ => h⟩
    rw [hres] at hacq
    cases hacq
  exact robust_ret fun w' he _ => hpost.later he

theorem robust_renewalLost {cur : Record}
    (h : Lapsed l w key holder token ∨ Overtaken l w key holder token)
    (hlast : l.last ≤ w.writes.length) :
    Robust (discipline cfg) i
      ((Manager.renewalLost key cur).bind fun res => .ret (.ok res))
      (RenewPost cfg i key holder token ttl) l w := by
  -- the second read only chooses what to report
  have hread : ∀ w', Later w w' → Lapsed (l.read w') w' key holder token ∨
      Overtaken (l.read w') w' key holder token := by
    intro w' he
    rcases h with h | h
    · exact .inl (h.mono he.1 (Nat.le_trans hlast he.length_le) fun _ ho => ho)
    · exact .inr (h.later he)
  refine robust_get ?_ ?_ ?_
  · intro w' r he hw _
    exact robust_renew_lost rfl (hread w' he)
  · intro w' he hw _
    exact robust_renew_lost rfl (hread w' he)
  · intro w' e he hw _
    exact robust_renew_lost rfl (hread w' he)

theorem robust_renewHeld (hne : holder ≠ "") (hpos : 0 < ttl)
    (hrun : Running cfg (.renew key holder token ttl) l w) :
    Robust (discipline cfg) i (Manager.renewHeld key holder token ttl)
      (RenewPost cfg i key holder token ttl) l w := by
  refine robust_get ?_ ?_ ?_
  · intro w₁ cur he₁ hw₁ hcur
    have hrun₁ := hrun.later he₁
    have hcurk : cur.key = key := (mem_of_storedAt hcur).choose_spec.2.2
    have hown : storedAt w₁.writes cur.key = some cur := by
      rw [hcurk]
      exact hcur
    refine robust_now fun w₂ now he₂ hw₂ hnow => ?_
    split
    · next hlost =>
      refine robust_renew_lost rfl (.inl ⟨w₁.writes, he₂.1, hrun₁.started, he₂.length_le, ?_⟩)
      rw [hcur]
      by_cases hheld : HeldBy holder token (some cur)
      · obtain ⟨hh, ht⟩ := hheld
        have hexp : cur.expired now = true := by
          rcases hlost with hn | hn | hexp
          · exact absurd hh hn
          · exact absurd ht hn
          · exact hexp
        exact .inr hexp
      · exact .inl hheld
    · next hheld =>
      simp only [not_or, Decidable.not_not, Bool.not_eq_true, Record.expired_eq_false_iff]
        at hheld
      obtain ⟨hh, ht, hlive⟩ := hheld
      have hplan : Plan cfg (.renew key holder token ttl) ((l.read w₁).stamp w₂ now) w₂
          w₁.writes now cur.version { cur with renewedAt := now, ttl := ttl } :=
        .of_read hrun₁ he₂ hw₂ hnow hown (.renew hne hpos hcurk hh ht hlive)
      refine robust_put hplan ?_ ?_ ?_
      · intro w₃ w₄ he₃ hw₄ hwr
        refine robust_ret fun w' he _ res heq => ?_
        cases heq
        refine ⟨fun _ => ⟨?_, ht⟩, fun hf => by cases hf⟩
        have hg := (hwr.granted hplan hcurk hh hne rfl rfl).later he
        rw [← hh]
        exact hh ▸ hg
      · intro w₃ he₃ hw₃ hchanged _
        have hheld : HeldBy holder token (storedAt w₁.writes key) := by
          rw [hcur]
          exact ⟨hh, ht⟩
        have hcases := conflict_cases (hplan.snapshot.later he₃) hw₃ hheld (hcurk ▸ hchanged)
        refine robust_renewalLost ?_ (Nat.le_refl _)
        rcases hcases with hv | ho
        · exact .inl (hv.mono (List.suffix_refl _) (Nat.le_refl _) fun _ ho => .inl ho)
        · exact .inr ho
      · intro w₃ w₄ e he₃ he₄ hw₄ hf
        simp only [(backendFault_iff.mp hf).2]
        exact robust_ret fun w' _ _ res heq => by cases heq
  · intro w₁ he₁ hw₁ hnone
    refine robust_renew_lost rfl (.inl ⟨w₁.writes, List.suffix_refl _, (hrun.later he₁).started,
      Nat.le_refl _, .inl ?_⟩)
    rw [hnone]
    exact heldBy_none
  · intro w₁ e he₁ hw₁ hf
    simp only [(backendFault_iff.mp hf).1]
    exact robust_ret fun w' _ _ res heq => by cases heq

theorem robust_renew (hrun : Running cfg (.renew key holder token ttl) l w) :
    Robust (discipline cfg) i (Manager.renew key holder token ttl)
      (RenewPost cfg i key holder token ttl) l w := by
  have hfail : ∀ e : Err, Robust (discipline cfg) i (.ret (.error e))
      (RenewPost cfg i key holder token ttl) l w :=
    fun e => robust_ret fun w' _ _ res heq => nomatch heq
  unfold Manager.renew
  split
  · exact hfail _
  split
  · exact hfail _
  rename_i hv
  split
  · exact hfail _
  split
  · exact hfail _
  · next httl =>
    exact robust_renewHeld (validateHolder_ne_empty hv) (Int.not_le.mp httl) hrun

/-! ## Release -/

/-- What a release's answer says. A success means that the caller lost the
key meanwhile or was overtaken by its own tenure; a refusal means that
the caller did not have it. -/
structure ReleasePost (cfg : Config) (key : Key) (holder : String) (token : Int)
    (a : Except Err Unit) (l : Loc) (w : World) : Prop where
  released : a = .ok () → holder ≠ "" ∧ (Vacated l w key holder token ∨
    Overtaken l w key holder token)
  careful : cfg.careful = true → a = .ok () → Vacated l w key holder token
  refused : ∀ e, a = .error e → e.is .conflict = true → Vacated l w key holder token

theorem Vacated.later {h : String} {t : Int} (hv : Vacated l w key h t) (he : Later w w') :
    Vacated l w' key h t := hv.mono he.1 (Nat.le_refl _) fun _ ho => ho

theorem ReleasePost.later {a : Except Err Unit} (h : ReleasePost cfg key holder token a l w)
    (he : Later w w') : ReleasePost cfg key holder token a l w' where
  released := by
    intro heq
    obtain ⟨hne, h | h⟩ := h.released heq
    · exact ⟨hne, .inl (h.later he)⟩
    · exact ⟨hne, .inr (h.later he)⟩
  careful := fun hc heq => (h.careful hc heq).later he
  refused := fun e heq hconf => (h.refused e heq hconf).later he

theorem robust_release_ok (hne : holder ≠ "")
    (h : Vacated l w key holder token ∨ Overtaken l w key holder token)
    (hcareful : cfg.careful = true → Vacated l w key holder token) :
    Robust (discipline cfg) i (.ret (.ok ())) (ReleasePost cfg key holder token) l w := by
  have hpost : ReleasePost cfg key holder token (.ok ()) l w :=
    ⟨fun _ => ⟨hne, h⟩, fun hc _ => hcareful hc, fun _ heq => nomatch heq⟩
  exact robust_ret fun w' he _ => hpost.later he

theorem robust_release_vacated (hne : holder ≠ "") (h : Vacated l w key holder token) :
    Robust (discipline cfg) i (.ret (.ok ())) (ReleasePost cfg key holder token) l w :=
  robust_release_ok hne (.inl h) fun _ => h

theorem robust_release_error {e : Err} (h : e.is .conflict = false) :
    Robust (discipline cfg) i (.ret (.error e)) (ReleasePost cfg key holder token) l w := by
  refine robust_ret fun w' _ _ => ⟨(nomatch ·), fun _ => (nomatch ·), ?_⟩
  intro e' heq hconf
  cases heq
  rw [h] at hconf
  cases hconf

theorem robust_releaseHeld (hne : holder ≠ "")
    (hrun : Running cfg (.release key holder token) l w) :
    Robust (discipline cfg) i (Manager.releaseHeld key holder token)
      (ReleasePost cfg key holder token) l w := by
  refine robust_get ?_ ?_ ?_
  · intro w₁ cur he₁ hw₁ hcur
    have hrun₁ := hrun.later he₁
    have hcurk : cur.key = key := (mem_of_storedAt hcur).choose_spec.2.2
    have hown : storedAt w₁.writes cur.key = some cur := by
      rw [hcurk]
      exact hcur
    -- the read itself is an instant of the call
    have hnow : ¬ HeldBy holder token (some cur) →
        Vacated (l.read w₁) w₁ key holder token := by
      intro hnot
      refine ⟨w₁.writes, List.suffix_refl _, hrun₁.started, Nat.le_refl _, ?_⟩
      rw [hcur]
      exact hnot
    dsimp only
    split
    · next htomb =>
      refine robust_release_vacated hne (hnow ?_)
      rintro ⟨hh, _⟩
      exact hne (hh ▸ Record.tombstone_iff.mp htomb)
    · split
      · next hother =>
        refine robust_ret fun w' he _ => ⟨(nomatch ·), fun _ => (nomatch ·), ?_⟩
        intro e heq _
        refine (hnow ?_).later he
        rintro ⟨hh, ht⟩
        rcases hother with hn | hn
        · exact hn hh
        · exact hn ht
      · next hheld =>
        simp only [not_or, Decidable.not_not] at hheld
        obtain ⟨hh, ht⟩ := hheld
        refine robust_now fun w₂ now he₂ hw₂ hnow => ?_
        have hplan : Plan cfg (.release key holder token) ((l.read w₁).stamp w₂ now) w₂
            w₁.writes now cur.version (Manager.tombstoneFrom cur now) :=
          .of_read hrun₁ he₂ hw₂ hnow hown (.release hne hcurk hh ht)
        refine robust_put hplan ?_ ?_ ?_
        · -- the tombstone itself is the instant at which nobody holds the key
          intro w₃ w₄ he₃ hw₄ hwr
          refine robust_release_vacated hne ⟨w₄.writes, List.suffix_refl _, ?_, Nat.le_refl _, ?_⟩
          · show l.started ≤ w₄.writes.length
            exact Nat.le_trans hplan.running.started (he₃.trans hwr.later).length_le
          · have hst : storedAt w₄.writes cur.key = some _ := hwr.stored
            rw [← hcurk, hst]
            rintro ⟨hh', _⟩
            exact hne hh'.symm
        · intro w₃ he₃ hw₃ hchanged hprudent
          have hheld : HeldBy holder token (storedAt w₁.writes key) := by
            rw [hcur]
            exact ⟨hh, ht⟩
          refine robust_release_ok hne
            (conflict_cases (hplan.snapshot.later he₃) hw₃ hheld (hcurk ▸ hchanged)) fun hc => ?_
          refine ⟨w₃.writes, List.suffix_refl _, ?_, Nat.le_refl _, ?_⟩
          · show l.started ≤ w₃.writes.length
            exact Nat.le_trans hplan.running.started he₃.length_le
          · rw [← hcurk]
            exact hprudent hc key holder token hplan.running.call
        · intro w₃ w₄ e he₃ he₄ hw₄ hf
          simp only [(backendFault_iff.mp hf).2]
          exact robust_release_error (backendFault_iff.mp hf).2
  · intro w₁ he₁ hw₁ hnone
    refine robust_release_vacated hne ⟨w₁.writes, List.suffix_refl _, (hrun.later he₁).started,
      Nat.le_refl _, ?_⟩
    rw [hnone]
    exact heldBy_none
  · intro w₁ e he₁ hw₁ hf
    simp only [(backendFault_iff.mp hf).1]
    exact robust_release_error (backendFault_iff.mp hf).2

theorem validateKey_not_conflict {e : Err} (h : Lease.validateKey key = .error e) :
    e.is .conflict = false := by
  unfold Lease.validateKey at h
  split at h
  · cases h; rfl
  split at h
  · cases h; rfl
  dsimp only at h
  split at h
  · cases h; rfl
  · cases h

theorem robust_release (hrun : Running cfg (.release key holder token) l w) :
    Robust (discipline cfg) i (Manager.release key holder token)
      (ReleasePost cfg key holder token) l w := by
  unfold Manager.release
  split
  · next e he =>
    have hconf := validateKey_not_conflict he
    exact robust_release_error hconf
  · split
    · exact robust_release_error rfl
    · next hne => exact robust_releaseHeld hne hrun

/-! ## The sweep -/

/-- Each record of the scan is swept only if it is still as scanned. -/
theorem robust_collectLoop {e : TTLEnforcer} {now : Time} (records : List Record) (swept : Nat)
    (hrun : Running cfg (.collect e.grace) l w) (hsnap : Snapshot l w ws₀)
    (hstamp : Stamped cfg l w ws₀ now) (hscan : ∀ r ∈ records, storedAt ws₀ r.key = some r) :
    Robust (discipline cfg) i (TTLEnforcer.collectLoop now e.grace records swept)
      (fun _ _ _ => True) l w := by
  induction records generalizing swept l w with
  | nil => exact robust_ret fun _ _ _ => trivial
  | cons r rest ih =>
    have hrest : ∀ r ∈ rest, storedAt ws₀ r.key = some r :=
      fun r' hr' => hscan r' (List.mem_cons_of_mem r hr')
    unfold TTLEnforcer.collectLoop
    split
    · exact ih swept hrun hsnap hstamp hrest
    rename_i hdue
    simp only [Bool.or_eq_true, Record.tombstone_iff, decide_eq_true_eq, not_or,
      Int.not_lt] at hdue
    have hown := hscan r List.mem_cons_self
    have hplan : Plan cfg (.collect e.grace) l w ws₀ now r.version
        (Manager.tombstoneFrom r now) :=
      { running := hrun
        snapshot := hsnap
        stamped := hstamp
        version := by
          show r.version = ((storedAt ws₀ r.key).map Record.version).getD 0
          rw [hown]
          rfl
        transition := by
          show Transition _ now (storedAt ws₀ r.key) _
          rw [hown]
          exact .sweep e.grace_pos hdue.1 hdue.2 }
    -- whatever comes back, the rest of the scan goes on from the same snapshot
    have hgo : ∀ {l' w'} (n : Nat), Later w w' → l'.call = l.call → l'.started = l.started →
        l'.invokedAt = l.invokedAt → l'.readAt = l.readAt → l'.reading = l.reading →
        Robust (discipline cfg) i (TTLEnforcer.collectLoop now e.grace rest n)
          (fun _ _ _ => True) l' w' := by
      intro l' w' n he hc hs hi hra hre
      refine ih n ((hrun.later he).relabel hc hs hi)
        ⟨hsnap.past.trans he.1, hra ▸ hsnap.readAt, by rw [hs, hra]; exact hsnap.started⟩
        ⟨hre ▸ hstamp.reading, fun hcl => ?_⟩ hrest
      rw [hi]
      exact (hstamp.later he).now hcl
    refine robust_put hplan ?_ ?_ ?_
    · intro w₁ w₂ he₁ hw₂ hwr
      exact hgo _ (he₁.trans hwr.later) rfl rfl rfl rfl rfl
    · intro w₁ he₁ hw₁ _ _
      exact hgo _ he₁ rfl rfl rfl rfl rfl
    · intro w₁ w₂ err he₁ he₂ hw₂ hf
      simp only [(backendFault_iff.mp hf).2]
      refine robust_ctxDone fun w₃ b he₃ hw₃ => ?_
      cases b with
      | true => exact robust_ret fun _ _ _ => trivial
      | false => exact hgo _ ((he₁.trans he₂).trans he₃) rfl rfl rfl rfl rfl

theorem robust_collect {e : TTLEnforcer} (hrun : Running cfg (.collect e.grace) l w) :
    Robust (discipline cfg) i (TTLEnforcer.collect e) (fun _ _ _ => True) l w := by
  refine robust_list ?_ ?_
  · intro w₁ rs he₁ hw₁ hscan
    have hrun₁ := hrun.later he₁
    refine robust_now fun w₂ now he₂ hw₂ hnow => ?_
    have hrun₂ := hrun₁.read.later he₂
    have hsnap₂ := hrun₁.snapshot.later he₂
    exact robust_collectLoop rs 0 (hrun₂.relabel rfl rfl rfl)
      ⟨hsnap₂.past, hsnap₂.readAt, hsnap₂.started⟩ (stamped_of_now hrun₂ hsnap₂ hw₂ hnow) hscan
  · intro w₁ err he₁ hw₁ _
    exact robust_ret fun _ _ _ => trivial

end Berth.Server
