/-
Berth.Lease.HistoryTheorems — what every history of lease writes
guarantees.

`Transition.some_cases` says once what a write can do to an existing
record: continue the tenure, reclaim under the next token, or tombstone.
Versions, tokens and tenures then follow by induction on the history,
each step using that inversion and nothing else about the transitions.
Time enters only with `Timely`: `occupies_separated` is the induction
behind mutual exclusion.
-/
import Berth.Lease.History

namespace Berth.Lease

variable {γ : Type} {ws ws₀ : List (Write γ)} {x y z : Write γ} {k : Key}

/-! ## The stored record -/

@[simp] theorem storedAt_nil : storedAt ([] : List (Write γ)) k = none := rfl

theorem storedAt_cons :
    storedAt (x :: ws) k = if x.new.key = k then some x.new else storedAt ws k := by
  unfold storedAt
  by_cases h : x.new.key = k <;> simp [h]

theorem storedAt_cons_self : storedAt (x :: ws) x.new.key = some x.new := by
  simp [storedAt_cons]

theorem mem_of_storedAt {r : Record} (h : storedAt ws k = some r) :
    ∃ x ∈ ws, x.new = r ∧ r.key = k := by
  simp only [storedAt, Option.map_eq_some_iff] at h
  obtain ⟨x, hx, rfl⟩ := h
  have hk := List.find?_some hx
  exact ⟨x, List.mem_of_find?_eq_some hx, rfl, by simpa using hk⟩

theorem storedAt_eq_none (h : storedAt ws k = none) (hx : x ∈ ws) : x.new.key ≠ k := by
  simp only [storedAt, Option.map_eq_none_iff, List.find?_eq_none] at h
  simpa using h x hx

theorem exists_storedAt (hx : x ∈ ws) (hk : x.new.key = k) : ∃ r, storedAt ws k = some r := by
  cases h : storedAt ws k with
  | none => exact absurd hk (storedAt_eq_none h hx)
  | some r => exact ⟨r, rfl⟩

theorem AtInstant.mono {ws' : List (Write γ)} {lo hi hi' : Nat} {P P' : Option Record → Prop}
    (h : AtInstant ws lo hi k P) (hs : ws <:+ ws') (hhi : hi ≤ hi') (hP : ∀ o, P o → P' o) :
    AtInstant ws' lo hi' k P' := by
  obtain ⟨ws₀, hws, hlo, hle, hp⟩ := h
  exact ⟨ws₀, hws.trans hs, hlo, Nat.le_trans hle hhi, hP _ hp⟩

/-! ## One transition -/

namespace Transition

variable {op : LeaseOp} {t : Time} {r new : Record}

/-- A first write starts at token 1 and version 1. -/
theorem none_fields (h : Transition op t none new) :
    new.fencingToken = 1 ∧ new.version = 1 ∧ new.holder ≠ "" ∧ new.acquiredAt = t ∧
      new.renewedAt = t := by
  cases h with
  | create hne _ => exact ⟨rfl, rfl, hne, rfl, rfl⟩

/-- Every write over a record bumps its version, keeps its key and is
stamped with the writer's reading. -/
theorem some_fields (h : Transition op t (some r) new) :
    new.version = r.version + 1 ∧ new.key = r.key ∧ new.renewedAt = t := by
  cases h with
  | extend _ _ _ _ _ => exact ⟨rfl, rfl, rfl⟩
  | reclaim _ _ hk _ _ => exact ⟨rfl, hk.symm, rfl⟩
  | renew _ _ _ _ _ _ => exact ⟨rfl, rfl, rfl⟩
  | release _ _ _ _ => exact ⟨rfl, rfl, rfl⟩
  | sweep _ _ _ => exact ⟨rfl, rfl, rfl⟩

/-- What a write can do to an existing record. -/
theorem some_cases (h : Transition op t (some r) new) :
    (r.holder ≠ "" ∧ new.holder = r.holder ∧ new.fencingToken = r.fencingToken ∧
      new.acquiredAt = r.acquiredAt ∧ t ≤ r.expiresAt) ∨
    (new.holder ≠ "" ∧ new.fencingToken = r.fencingToken + 1 ∧ r.fencingToken ≠ maxInt32 ∧
      new.acquiredAt = t ∧ (r.holder = "" ∨ r.expiresAt < t)) ∨
    (r.holder ≠ "" ∧ new.holder = "" ∧ new.fencingToken = r.fencingToken ∧
      new.acquiredAt = r.acquiredAt ∧
      (op = .release r.key r.holder r.fencingToken ∨
        ∃ grace, op = .collect grace ∧ 0 < grace ∧ r.expiresAt + grace ≤ t)) := by
  cases h with
  | extend hne _ _ hh hlive => exact .inl ⟨hh ▸ hne, rfl, rfl, rfl, hlive⟩
  | reclaim hne _ _ hfree hmax => exact .inr (.inl ⟨hne, rfl, hmax, rfl, hfree⟩)
  | renew hne _ _ hh _ hlive => exact .inl ⟨hh ▸ hne, rfl, rfl, rfl, hlive⟩
  | release hne hk hh htok =>
    exact .inr (.inr ⟨hh ▸ hne, rfl, rfl, rfl, .inl (by rw [hk, hh, htok])⟩)
  | sweep hpos hne hold => exact .inr (.inr ⟨hne, rfl, rfl, rfl, .inr ⟨_, rfl, hpos, hold⟩⟩)

/-- Whoever acts for another holder can only take over what is free or
expired. -/
theorem expired_of_foreign {h : String} (htr : Transition op t (some r) new)
    (hop : op.holder? = some h) (hfor : r.holder ≠ h) (hne : r.holder ≠ "") :
    r.expiresAt < t := by
  cases htr with
  | extend _ _ _ hh _ => cases hop; exact absurd hh hfor
  | reclaim _ _ _ hfree _ => exact hfree.resolve_left hne
  | renew _ _ _ hh _ _ => cases hop; exact absurd hh hfor
  | release _ _ hh _ => cases hop; exact absurd hh hfor
  | sweep => cases hop

/-- A sweep leaves no holder. -/
theorem collect_holder {grace : Duration} {old : Option Record}
    (h : Transition (.collect grace) t old new) : new.holder = "" := by
  cases h with
  | sweep => rfl

/-- A write that leaves the record held acts for its holder, with the TTL
it stores. -/
theorem held_fields {old : Option Record} (h : Transition op t old new)
    (hne : new.holder ≠ "") :
    op.key? = some new.key ∧ op.holder? = some new.holder ∧ op.ttl? = some new.ttl := by
  cases h with
  | create _ _ => exact ⟨rfl, rfl, rfl⟩
  | extend _ _ hk hh _ => subst hk; subst hh; exact ⟨rfl, rfl, rfl⟩
  | reclaim _ _ _ _ _ => exact ⟨rfl, rfl, rfl⟩
  | renew _ _ hk hh _ _ => subst hk; subst hh; exact ⟨rfl, rfl, rfl⟩
  | release _ _ _ _ => exact absurd rfl hne
  | sweep _ _ _ => exact absurd rfl hne

/-- An operation that asks for a TTL stores it. -/
theorem stored_ttl {old : Option Record} {ttl : Duration} (h : Transition op t old new)
    (hop : op.ttl? = some ttl) : new.ttl = ttl := by
  cases h with
  | create _ _ => exact Option.some.inj hop
  | extend _ _ _ _ _ => exact Option.some.inj hop
  | reclaim _ _ _ _ _ => exact Option.some.inj hop
  | renew _ _ _ _ _ _ => exact Option.some.inj hop
  | release _ _ _ _ => cases hop
  | sweep _ _ _ => cases hop

end Transition

/-! ## Histories -/

namespace History

theorem suffix (h : History ws) (hs : ws₀ <:+ ws) : History ws₀ := by
  induction h with
  | nil =>
    rw [List.suffix_nil.mp hs]
    exact .nil
  | cons h legit old ih =>
    rcases List.suffix_cons_iff.mp hs with rfl | hs
    · exact .cons h legit old
    · exact ih hs

/-- Every write of a history was made over what the writes before it left. -/
theorem old_eq (h : History (x :: ws)) : x.old = storedAt ws x.new.key := by
  cases h with
  | cons _ _ old => exact old

theorem tail (h : History (x :: ws)) : History ws := h.suffix (List.suffix_cons x ws)

theorem transition (h : History (x :: ws)) :
    ∃ op t, x.op = some op ∧ x.reading = some t ∧
      Transition op t (storedAt ws x.new.key) x.new := by
  have hold := h.old_eq
  cases h with
  | cons _ legit _ =>
    obtain ⟨op, t, ho, hr, ht⟩ := legit
    exact ⟨op, t, ho, hr, hold ▸ ht⟩

theorem legit_of_mem (h : History ws) (hx : x ∈ ws) : x.Legit := by
  induction h with
  | nil => cases hx
  | cons _ legit _ ih =>
    rcases List.mem_cons.mp hx with rfl | hx
    · exact legit
    · exact ih hx

/-! ### Versions -/

theorem version_le_stored {r : Record} (h : History ws) (hr : storedAt ws k = some r)
    (hy : y ∈ ws) (hk : y.new.key = k) : y.new.version ≤ r.version := by
  induction h generalizing r with
  | nil => cases hy
  | @cons x ws h legit old ih =>
    have hx := (History.cons h legit old).transition
    rw [storedAt_cons] at hr
    by_cases hxk : x.new.key = k
    · -- the newest write on `k`: one above whatever was stored before
      rw [if_pos hxk, Option.some.injEq] at hr
      subst hr
      rcases List.mem_cons.mp hy with rfl | hy
      · exact Int.le_refl _
      obtain ⟨r', hr'⟩ := exists_storedAt hy hk
      obtain ⟨_, t, _, _, ht⟩ := hx
      rw [hxk, hr'] at ht
      have := ih hr' hy
      have := ht.some_fields.1
      omega
    · rw [if_neg hxk] at hr
      rcases List.mem_cons.mp hy with rfl | hy
      · exact absurd hk hxk
      · exact ih hr hy

/-- A write's version is above every earlier one on its key. -/
theorem version_lt (h : History (x :: ws)) (hy : y ∈ ws) (hk : y.new.key = x.new.key) :
    y.new.version < x.new.version := by
  obtain ⟨r, hr⟩ := exists_storedAt hy hk
  obtain ⟨_, t, _, _, ht⟩ := h.transition
  rw [hr] at ht
  have := h.tail.version_le_stored hr hy hk
  have := ht.some_fields.1
  omega

theorem version_pos (h : History ws) (hx : x ∈ ws) : 1 ≤ x.new.version := by
  induction h generalizing x with
  | nil => cases hx
  | @cons z ws h legit old ih =>
    rcases List.mem_cons.mp hx with rfl | hx
    · obtain ⟨_, t, _, _, ht⟩ := (History.cons h legit old).transition
      cases hst : storedAt ws x.new.key with
      | none =>
        rw [hst] at ht
        exact Int.le_of_eq ht.none_fields.2.1.symm
      | some r =>
        rw [hst] at ht
        obtain ⟨v, hv, hvr, _⟩ := mem_of_storedAt hst
        have := ih hv
        rw [hvr] at this
        have := ht.some_fields.1
        omega
    · exact ih hx

/-- On one key, a version names one write. -/
theorem eq_of_version (h : History ws) (hx : x ∈ ws) (hy : y ∈ ws)
    (hk : x.new.key = y.new.key) (hv : x.new.version = y.new.version) : x = y := by
  induction h generalizing x y with
  | nil => cases hx
  | @cons z ws h legit old ih =>
    have hz := History.cons h legit old
    rcases List.mem_cons.mp hx with rfl | hx' <;> rcases List.mem_cons.mp hy with rfl | hy'
    · rfl
    · have := hz.version_lt hy' hk.symm
      omega
    · have := hz.version_lt hx' hk
      omega
    · exact ih hx' hy' hk hv

/-- The record read earlier is the stored one as soon as versions agree. -/
theorem stored_eq_of_version {r : Record} (h : History ws) (hx : x ∈ ws) (hk : x.new.key = k)
    (hr : storedAt ws k = some r) (hv : r.version = x.new.version) : r = x.new := by
  obtain ⟨y, hy, hyr, hrk⟩ := mem_of_storedAt hr
  rw [← hyr] at hv hrk ⊢
  rw [h.eq_of_version hy hx (hrk.trans hk.symm) hv]

/-! ### Tokens -/

theorem token_bounds (h : History ws) (hx : x ∈ ws) :
    1 ≤ x.new.fencingToken ∧ x.new.fencingToken ≤ maxInt32 := by
  induction h generalizing x with
  | nil => cases hx
  | @cons z ws h legit old ih =>
    rcases List.mem_cons.mp hx with rfl | hx
    · obtain ⟨_, t, _, _, ht⟩ := (History.cons h legit old).transition
      cases hst : storedAt ws x.new.key with
      | none =>
        rw [hst] at ht
        rw [ht.none_fields.1]
        decide
      | some r =>
        rw [hst] at ht
        obtain ⟨v, hv, hvr, _⟩ := mem_of_storedAt hst
        have hb := ih hv
        rw [hvr] at hb
        rcases ht.some_cases with ⟨_, _, h, _⟩ | ⟨_, h, hne, _⟩ | ⟨_, _, h, _⟩ <;> omega
    · exact ih hx

/-- Over a stored record, the token stays or goes up by one. -/
theorem token_step {r : Record} (h : History (x :: ws)) (hr : storedAt ws x.new.key = some r) :
    r.fencingToken ≤ x.new.fencingToken := by
  obtain ⟨_, t, _, _, ht⟩ := h.transition
  rw [hr] at ht
  rcases ht.some_cases with ⟨_, _, h, _⟩ | ⟨_, h, _⟩ | ⟨_, _, h, _⟩ <;> omega

theorem token_le_stored {r : Record} (h : History ws) (hr : storedAt ws k = some r)
    (hy : y ∈ ws) (hk : y.new.key = k) : y.new.fencingToken ≤ r.fencingToken := by
  induction h generalizing r with
  | nil => cases hy
  | @cons x ws h legit old ih =>
    rw [storedAt_cons] at hr
    by_cases hxk : x.new.key = k
    · rw [if_pos hxk, Option.some.injEq] at hr
      subst hr
      rcases List.mem_cons.mp hy with rfl | hy
      · exact Int.le_refl _
      obtain ⟨r', hr'⟩ := exists_storedAt hy hk
      have := ih hr' hy
      have := (History.cons h legit old).token_step (hxk ▸ hr')
      omega
    · rw [if_neg hxk] at hr
      rcases List.mem_cons.mp hy with rfl | hy
      · exact absurd hk hxk
      · exact ih hr hy

/-- The stored token never decreases from one instant to a later one. -/
theorem token_mono {r₀ : Record} (h : History ws) (hs : ws₀ <:+ ws)
    (hr₀ : storedAt ws₀ k = some r₀) :
    ∃ r, storedAt ws k = some r ∧ r₀.fencingToken ≤ r.fencingToken := by
  obtain ⟨y, hy, hyr, hrk⟩ := mem_of_storedAt hr₀
  have hyk : y.new.key = k := hyr ▸ hrk
  obtain ⟨r, hr⟩ := exists_storedAt (hs.subset hy) hyk
  exact ⟨r, hr, hyr ▸ h.token_le_stored hr (hs.subset hy) hyk⟩

/-- A write that leaves a holder with no tenure to continue carries a token
above everything stored on the key before it. -/
theorem token_lt_of_anew (h : History (x :: ws)) (hne : x.new.holder ≠ "") (hanew : x.Anew)
    (hy : y ∈ ws) (hk : y.new.key = x.new.key) :
    y.new.fencingToken < x.new.fencingToken := by
  obtain ⟨r, hr⟩ := exists_storedAt hy hk
  have hle := h.tail.token_le_stored hr hy hk
  have hold := h.old_eq
  obtain ⟨_, t, _, hread, ht⟩ := h.transition
  rw [hr] at ht hold
  rcases ht.some_cases with ⟨_, hh, _, _, hlive⟩ | ⟨_, hf, _⟩ | ⟨_, hh, _⟩
  · -- an extension: the same holder, before the expiry
    rcases hanew r t hold hread with hother | hexpired
    · exact absurd hh.symm hother
    · exact absurd hlive (Int.not_le.mpr hexpired)
  · omega
  · exact absurd hh hne

/-- Two records with a holder and one token belong to one tenure. -/
theorem same_tenure (h : History ws) (hx : x ∈ ws) (hy : y ∈ ws)
    (hk : x.new.key = y.new.key) (htok : x.new.fencingToken = y.new.fencingToken)
    (hxh : x.new.holder ≠ "") (hyh : y.new.holder ≠ "") :
    x.new.holder = y.new.holder ∧ x.new.acquiredAt = y.new.acquiredAt := by
  -- it is enough to compare a new write with an older one of its token
  have key : ∀ {z v : Write γ} {ws}, History (z :: ws) →
      (∀ {u}, u ∈ ws → u.new.key = v.new.key → u.new.fencingToken = v.new.fencingToken →
        u.new.holder ≠ "" → u.new.holder = v.new.holder ∧ u.new.acquiredAt = v.new.acquiredAt) →
      v ∈ ws → z.new.key = v.new.key → z.new.fencingToken = v.new.fencingToken →
      z.new.holder ≠ "" → z.new.holder = v.new.holder ∧ z.new.acquiredAt = v.new.acquiredAt := by
    intro z v ws hz ih hv hkz htz hne
    obtain ⟨r, hr⟩ := exists_storedAt hv hkz.symm
    obtain ⟨u, hu, hur, hrk⟩ := mem_of_storedAt hr
    have hle := hz.tail.token_le_stored hr hv hkz.symm
    obtain ⟨_, t, _, _, ht⟩ := hz.transition
    rw [hr] at ht
    rcases ht.some_cases with ⟨hrh, hh, hf, hacq, _⟩ | ⟨_, hf, _⟩ | ⟨_, hh, _⟩
    · rw [hh, hacq, ← hur]
      refine ih hu ?_ ?_ (hur ▸ hrh)
      · rw [hur, hrk, hkz]
      · rw [hur, ← hf, htz]
    · omega
    · exact absurd hh hne
  induction h generalizing x y with
  | nil => cases hx
  | @cons z ws h legit old ih =>
    have hz := History.cons h legit old
    rcases List.mem_cons.mp hx with rfl | hx' <;> rcases List.mem_cons.mp hy with rfl | hy'
    · exact ⟨rfl, rfl⟩
    · exact key hz (fun hu hku htu hne => ih hu hy' hku htu hne hyh) hy' hk htok hxh
    · have hsym := key hz (fun hu hku htu hne => ih hu hx' hku htu hne hxh) hx' hk.symm
        htok.symm hyh
      exact ⟨hsym.1.symm, hsym.2.symm⟩
    · exact ih hx' hy' hk htok hxh hyh

/-! ### Between two instants -/

/-- If the record of `k` changed between two instants, some write in
between replaced exactly the record of the first one. -/
theorem first_change (h : History ws) (hs : ws₀ <:+ ws)
    (hne : storedAt ws k ≠ storedAt ws₀ k) :
    ∃ x ws₁, (x :: ws₁) <:+ ws ∧ ws₀ <:+ ws₁ ∧ x.new.key = k ∧ x.old = storedAt ws₀ k := by
  induction h with
  | nil => exact absurd (by rw [List.suffix_nil.mp hs]) hne
  | @cons z ws h legit old ih =>
    rcases List.suffix_cons_iff.mp hs with rfl | hs'
    · exact absurd rfl hne
    by_cases heq : storedAt ws k = storedAt ws₀ k
    · have hzk : z.new.key = k := by
        by_contra hzk
        rw [storedAt_cons, if_neg hzk] at hne
        exact hne heq
      exact ⟨z, ws, List.suffix_refl _, hs', hzk, by rw [old, hzk, heq]⟩
    · obtain ⟨x, ws₁, hx, hw, hk, hold⟩ := ih hs' heq
      exact ⟨x, ws₁, hx.trans (List.suffix_cons z ws), hw, hk, hold⟩

/-- If the record of `k` is the same at two instants, nothing was written
to `k` in between. -/
theorem mem_of_unchanged (h : History ws) (hs : ws₀ <:+ ws)
    (heq : storedAt ws k = storedAt ws₀ k) (hy : y ∈ ws) (hk : y.new.key = k) : y ∈ ws₀ := by
  induction h with
  | nil => cases hy
  | @cons z ws h legit old ih =>
    rcases List.suffix_cons_iff.mp hs with rfl | hs'
    · exact hy
    have hzk : z.new.key ≠ k := by
      rintro rfl
      rw [storedAt_cons_self] at heq
      obtain ⟨v, hv, hvz, _⟩ := mem_of_storedAt heq.symm
      have := (History.cons h legit old).version_lt (hs'.subset hv) (by rw [hvz])
      rw [hvz] at this
      omega
    rw [storedAt_cons, if_neg hzk] at heq
    rcases List.mem_cons.mp hy with rfl | hy'
    · exact absurd hk hzk
    · exact ih hs' heq hy'

/-- A tenure that is over at some instant does not come back. -/
theorem tenure_over {hd : String} {tok : Int} (h : History ws) (hs : ws₀ <:+ ws)
    (hne : hd ≠ "") (hy : y ∈ ws₀) (hyk : y.new.key = k) (hheld : HeldBy hd tok (some y.new))
    (hover : ¬ HeldBy hd tok (storedAt ws₀ k)) :
    ¬ HeldBy hd tok (storedAt ws k) ∧
      ∀ x ∈ ws, x.new.key = k → HeldBy hd tok (some x.new) → x ∈ ws₀ := by
  induction h with
  | nil => rw [List.suffix_nil.mp hs] at hy; cases hy
  | @cons z ws h legit old ih =>
    rcases List.suffix_cons_iff.mp hs with rfl | hs'
    · exact ⟨hover, fun x hx _ _ => hx⟩
    obtain ⟨hst, hall⟩ := ih hs'
    by_cases hzk : z.new.key = k
    · have hz : ¬ HeldBy hd tok (some z.new) := by
        rintro ⟨hzh, hzt⟩
        obtain ⟨r, hr⟩ := exists_storedAt (hs'.subset hy) hyk
        have hle := h.token_le_stored hr (hs'.subset hy) hyk
        obtain ⟨_, t, _, _, ht⟩ := (History.cons h legit old).transition
        rw [hzk, hr] at ht
        rw [hr] at hst
        have hyt := hheld.2
        rcases ht.some_cases with ⟨_, hh, hf, _⟩ | ⟨_, hf, _⟩ | ⟨_, hh, _⟩
        · exact hst ⟨hh ▸ hzh, hf ▸ hzt⟩
        · omega
        · exact hne (hzh ▸ hh)
      refine ⟨?_, fun x hx hxk hxh => ?_⟩
      · rw [← hzk, storedAt_cons_self]
        exact hz
      · rcases List.mem_cons.mp hx with rfl | hx'
        · exact absurd hxh hz
        · exact hall x hx' hxk hxh
    · refine ⟨?_, fun x hx hxk hxh => ?_⟩
      · rw [storedAt_cons, if_neg hzk]
        exact hst
      · rcases List.mem_cons.mp hx with rfl | hx'
        · exact absurd hxk hzk
        · exact hall x hx' hxk hxh

/-- A write that ends a tenure is the tenure's own release, or was
decided strictly after the replaced record had expired; a sweep waits
for its grace as well. -/
theorem ends_cases {hd : String} {tok : Int} (h : History (x :: ws)) (hend : x.Ends hd tok)
    (hne : hd ≠ "") :
    ∃ r t, x.old = some r ∧ x.reading = some t ∧
      (x.op = some (.release x.new.key hd tok) ∨
        r.expiresAt < t ∧ ∀ grace, x.op = some (.collect grace) → r.expiresAt + grace ≤ t) := by
  obtain ⟨hheld, hnot⟩ := hend
  obtain ⟨op, t, hop', hread, ht⟩ := h.transition
  rw [h.old_eq] at hheld ⊢
  cases hst : storedAt ws x.new.key with
  | none => exact absurd hheld (by rw [hst]; exact heldBy_none)
  | some r =>
    rw [hst] at ht hheld
    obtain ⟨rfl, rfl⟩ := hheld
    refine ⟨r, t, rfl, hread, ?_⟩
    have hkey := ht.some_fields.2.1
    rcases ht.some_cases with ⟨_, hh, hf, _⟩ | ⟨hh, _, _, _, hfree⟩ | ⟨_, _, _, _, hop⟩
    · exact absurd ⟨hh, hf⟩ hnot
    · refine .inr ⟨hfree.resolve_left hne, fun grace hop => ?_⟩
      -- a reclaim leaves a holder, a sweep does not
      rw [hop', Option.some.injEq] at hop
      rw [hop] at ht
      exact absurd ht.collect_holder hh
    · rcases hop with hop | ⟨g, hop, hpos, hold⟩
      · exact .inl (by rw [hop', hop, hkey])
      · refine .inr ⟨by lia, fun grace hg => ?_⟩
        rw [hop', hop, Option.some.injEq, LeaseOp.collect.injEq] at hg
        exact hg ▸ hold

end History

/-! ## One clock -/

namespace Timely

theorem suffix (h : Timely ws) (hs : ws₀ <:+ ws) : Timely ws₀ := by
  induction h with
  | nil =>
    rw [List.suffix_nil.mp hs]
    exact .nil
  | cons h reading landed before ih =>
    rcases List.suffix_cons_iff.mp hs with rfl | hs
    · exact .cons h reading landed before
    · exact ih hs

/-- A write carries its own reading and lands no earlier. -/
theorem renewedAt_le_landed (h : Timely ws) (hh : History ws) (hx : x ∈ ws) :
    x.new.renewedAt ≤ x.landed := by
  induction h generalizing x with
  | nil => cases hx
  | @cons z ws t h reading landed before ih =>
    rcases List.mem_cons.mp hx with rfl | hx'
    · obtain ⟨_, t', _, hread, ht⟩ := hh.transition
      rw [reading, Option.some.injEq] at hread
      subst hread
      cases hst : storedAt ws x.new.key with
      | none =>
        rw [hst] at ht
        rw [ht.none_fields.2.2.2.2]
        exact landed
      | some r =>
        rw [hst] at ht
        rw [ht.some_fields.2.2]
        exact landed
    · exact ih hh.tail hx'

/-- A write's own reading is what it stores. -/
theorem reading_eq (hh : History (x :: ws)) : x.reading = some x.new.renewedAt := by
  obtain ⟨_, t, _, hread, ht⟩ := hh.transition
  cases hst : storedAt ws x.new.key with
  | none =>
    rw [hst] at ht
    rw [hread, ht.none_fields.2.2.2.2]
  | some r =>
    rw [hst] at ht
    rw [hread, ht.some_fields.2.2]

/-- `RenewedAt` never decreases from one write of a key to a later one. -/
theorem renewedAt_le (h : Timely (x :: ws)) (hh : History (x :: ws)) (hy : y ∈ ws)
    (hk : y.new.key = x.new.key) : y.new.renewedAt ≤ x.new.renewedAt := by
  have hown := reading_eq hh
  cases h with
  | cons h reading landed before =>
    rw [reading, Option.some.injEq] at hown
    rw [← hown]
    exact Int.le_trans (h.renewedAt_le_landed hh.tail hy) (before y hy hk)

theorem renewedAt_mono {r : Record} (h : Timely (x :: ws)) (hh : History (x :: ws))
    (hr : x.old = some r) : r.renewedAt ≤ x.new.renewedAt := by
  obtain ⟨v, hv, rfl, hrk⟩ := mem_of_storedAt (hh.old_eq ▸ hr)
  exact h.renewedAt_le hh hv hrk

end Timely

/-! ## A tenure lasts to its expiry -/

/-- Every write of a history has the older part it was made from. -/
theorem suffix_of_mem (hx : x ∈ ws) : ∃ ws₀, (x :: ws₀) <:+ ws := by
  obtain ⟨ws₁, ws₀, rfl⟩ := List.append_of_mem hx
  exact ⟨ws₀, List.suffix_append ws₁ (x :: ws₀)⟩

/-- Until an instant `D` that a tenure's expiry had reached, the tenure
stays and its expiry stays at or after `D`, if it is not released and no
renewal of it takes the expiry back before `D`. -/
theorem History.kept_until {hd : String} {tok : Int} {τ D : Time} (h : History ws)
    (htime : Timely ws) (hnow : ∀ y ∈ ws, y.landed ≤ τ) (hτ : τ < D) (hne : hd ≠ "")
    (hx : x ∈ ws) (hxk : x.new.key = k) (hheld : HeldBy hd tok (some x.new))
    (hD : D ≤ x.new.expiresAt)
    (hrel : ∀ y ∈ ws, ¬ y.Releases k hd tok)
    (hgrow : ∀ y ∈ ws, ∀ r, y.new.key = k → y.old = some r → y.Continues hd tok →
      D ≤ r.expiresAt → D ≤ y.new.expiresAt) :
    ∃ r, storedAt ws k = some r ∧ HeldBy hd tok (some r) ∧ D ≤ r.expiresAt := by
  induction h with
  | nil => cases hx
  | @cons z ws h legit old ih =>
    have hz := History.cons h legit old
    rcases List.mem_cons.mp hx with rfl | hx'
    · exact ⟨x.new, by rw [← hxk, storedAt_cons_self], hheld, hD⟩
    have htail := htime.suffix (List.suffix_cons z ws)
    obtain ⟨r, hr, hrheld, hrD⟩ := ih htail (fun y hy => hnow y (List.mem_cons_of_mem z hy)) hx'
      (fun y hy => hrel y (List.mem_cons_of_mem z hy))
      (fun y hy => hgrow y (List.mem_cons_of_mem z hy))
    by_cases hzk : z.new.key = k
    · have hzold : z.old = some r := by rw [old, hzk, hr]
      by_cases hznew : HeldBy hd tok (some z.new)
      · refine ⟨z.new, by rw [← hzk, storedAt_cons_self], hznew, ?_⟩
        exact hgrow z List.mem_cons_self r hzk hzold ⟨hzold ▸ hrheld, hznew⟩ hrD
      -- only a release or a write after the expiry ends a tenure
      obtain ⟨r', t, hr', hread, hend⟩ :=
        hz.ends_cases ⟨hzold ▸ hrheld, hznew⟩ hne
      rw [hzold, Option.some.injEq] at hr'
      subst hr'
      rcases hend with hop | ⟨hexp, _⟩
      · rw [hzk] at hop
        exact absurd ⟨hop, hzold ▸ hrheld⟩ (hrel z List.mem_cons_self)
      have hland := hnow z List.mem_cons_self
      cases htime with
      | cons _ reading landed _ =>
        rw [hread, Option.some.injEq] at reading
        subst reading
        exact absurd hexp (by lia)
    · exact ⟨r, by rw [storedAt_cons, if_neg hzk, hr], hrheld, hrD⟩

/-! ## Tenures do not overlap -/

section Exclusion

variable {hd hd' : String} {tok tok' : Int} {τ : Time}

/-- While a tenure is the stored one, its last write is what is stored. -/
theorem LastOf.eq_stored (hl : LastOf ws k hd tok x) (h : History ws)
    (hheld : HeldBy hd tok (storedAt ws k)) : storedAt ws k = some x.new := by
  obtain ⟨hx, hxk, _, hmax⟩ := hl
  obtain ⟨r, hr⟩ := exists_storedAt hx hxk
  rw [hr] at hheld ⊢
  obtain ⟨v, hv, hvr, hrk⟩ := mem_of_storedAt hr
  have hle := hmax v hv (hvr ▸ hrk) (hvr ▸ hheld)
  have hge := h.version_le_stored hr hx hxk
  rw [hvr] at hle
  rw [h.stored_eq_of_version hx hxk hr (Int.le_antisymm hle hge)]

/-- Dropping a write that is not the tenure's last one keeps the last. -/
theorem LastOf.of_cons (hl : LastOf (z :: ws) k hd tok x) (hne : x ≠ z) :
    LastOf ws k hd tok x := by
  obtain ⟨hx, hxk, hheld, hmax⟩ := hl
  exact ⟨(List.mem_cons.mp hx).resolve_left hne, hxk, hheld,
    fun y hy => hmax y (List.mem_cons_of_mem z hy)⟩

/-- A tenure that is no longer stored was over before anything landed
that a later grant can see: every later grant on the key is dated after
every instant the tenure occupied. -/
theorem occupies_separated (h : History ws) (htime : Timely ws) (hne : hd ≠ "")
    (hocc : Occupies ws k hd tok τ) (hclosed : ¬ HeldBy hd tok (storedAt ws k)) :
    (∃ y ∈ ws, y.new.key = k ∧ τ < y.landed) ∧
      ∀ y ∈ ws, y.new.key = k → y.new.holder ≠ "" → tok < y.new.fencingToken →
        τ < y.new.acquiredAt := by
  induction h with
  | nil =>
    obtain ⟨x, hl, _⟩ := hocc
    cases hl.1
  | @cons z ws h legit old ih =>
    have hz := History.cons h legit old
    obtain ⟨x, hl, hacq, hexp, hrel⟩ := hocc
    have hxz : x ≠ z := by
      -- otherwise the tenure would be the stored one
      rintro rfl
      rw [← hl.2.1, storedAt_cons_self] at hclosed
      exact hclosed hl.2.2.1
    have hl' := hl.of_cons hxz
    have hocc' : Occupies ws k hd tok τ :=
      ⟨x, hl', hacq, hexp, fun y hy => hrel y (List.mem_cons_of_mem z hy)⟩
    by_cases hzk : z.new.key = k
    · obtain ⟨r, hr⟩ := exists_storedAt hl'.1 hl'.2.1
      obtain ⟨_, t, _, hread, ht⟩ := hz.transition
      rw [hzk, hr] at ht
      cases htime with
      | cons htime reading landed before =>
      rw [hread, Option.some.injEq] at reading
      subst reading
      by_cases hwas : HeldBy hd tok (storedAt ws k)
      · -- `z` ends the tenure
        have hrx : r = x.new := by
          rw [hl'.eq_stored h hwas, Option.some.injEq] at hr
          exact hr.symm
        rw [hr] at hwas
        have hold : z.old = some r := by rw [old, hzk, hr]
        have hnone : ∀ y ∈ ws, y.new.key = k → ¬ tok < y.new.fencingToken := by
          intro y hy hyk
          have := h.token_le_stored hr hy hyk
          have := hwas.2
          omega
        have hend : z.Ends hd tok := by
          refine ⟨hold ▸ hwas, fun hh => hclosed ?_⟩
          rw [← hzk, storedAt_cons_self]
          exact hh
        obtain ⟨r', t', hold', hread', hwhy⟩ := hz.ends_cases hend hne
        rw [hold, Option.some.injEq] at hold'
        rw [hread, Option.some.injEq] at hread'
        subst hold' hread'
        have hlate : τ < z.landed := by
          rcases hwhy with hop | ⟨hlt, _⟩
          · exact hrel z List.mem_cons_self ⟨by rw [hop, hzk], hend.1⟩
          · rw [← hrx] at hexp
            lia
        refine ⟨⟨z, List.mem_cons_self, hzk, hlate⟩, fun y hy hyk hyh htok => ?_⟩
        rcases List.mem_cons.mp hy with rfl | hy
        · rcases ht.some_cases with ⟨_, _, hf, _⟩ | ⟨_, _, _, hacq', hfree⟩ | ⟨_, hh, _⟩
          · have := hwas.2
            omega
          · have hlt := hfree.resolve_left (hwas.1 ▸ hne)
            rw [hacq']
            rw [← hrx] at hexp
            lia
          · exact absurd hh hyh
        · exact absurd htok (hnone y hy hyk)
      · obtain ⟨⟨y₀, hy₀, hy₀k, hlt₀⟩, hlater⟩ := ih htime hocc' hwas
        refine ⟨⟨y₀, List.mem_cons_of_mem z hy₀, hy₀k, hlt₀⟩, fun y hy hyk hyh htok => ?_⟩
        rcases List.mem_cons.mp hy with rfl | hy
        · rcases ht.some_cases with ⟨hrh, _, hf, hacq', _⟩ | ⟨_, _, _, hacq', _⟩ | ⟨_, hh, _⟩
          · obtain ⟨v, hv, hvr, hrk⟩ := mem_of_storedAt hr
            rw [hacq', ← hvr]
            exact hlater v hv (hvr ▸ hrk) (hvr ▸ hrh) (by rw [hvr]; omega)
          · have := before y₀ hy₀ (hy₀k.trans hzk.symm)
            rw [hacq']
            exact Int.lt_of_lt_of_le hlt₀ this
          · exact absurd hh hyh
        · exact hlater y hy hyk hyh htok
    · rw [storedAt_cons, if_neg hzk] at hclosed
      cases htime with
      | cons htime reading landed before =>
      obtain ⟨⟨y₀, hy₀, hy₀k, hlt₀⟩, hlater⟩ := ih htime hocc' hclosed
      refine ⟨⟨y₀, List.mem_cons_of_mem z hy₀, hy₀k, hlt₀⟩, fun y hy hyk hyh htok => ?_⟩
      rcases List.mem_cons.mp hy with rfl | hy
      · exact absurd hyk hzk
      · exact hlater y hy hyk hyh htok

/-- At one instant at most one holder, under one token, occupies a key. -/
theorem occupies_unique (h : History ws) (htime : Timely ws) (hne : hd ≠ "") (hne' : hd' ≠ "")
    (hocc : Occupies ws k hd tok τ) (hocc' : Occupies ws k hd' tok' τ) :
    hd = hd' ∧ tok = tok' := by
  -- the earlier of two tenures is closed once the later one exists
  have key : ∀ {h₁ h₂ : String} {t₁ t₂ : Int}, h₁ ≠ "" → h₂ ≠ "" → Occupies ws k h₁ t₁ τ →
      Occupies ws k h₂ t₂ τ → ¬ t₁ < t₂ := by
    intro h₁ h₂ t₁ t₂ hne₁ hne₂ hocc₁ ⟨x, ⟨hx, hxk, hheld, _⟩, hacq, _⟩ hlt
    obtain ⟨r, hr⟩ := exists_storedAt hx hxk
    have hle := h.token_le_stored hr hx hxk
    have hclosed : ¬ HeldBy h₁ t₁ (storedAt ws k) := by
      rw [hr]
      intro hh
      have := hh.2
      have := hheld.2
      omega
    have hafter := (occupies_separated h htime hne₁ hocc₁ hclosed).2 x hx hxk
      (hheld.1 ▸ hne₂) (by rw [hheld.2]; exact hlt)
    exact absurd hacq (Int.not_le.mpr hafter)
  have htok : tok = tok' :=
    Int.le_antisymm (Int.not_lt.mp (key hne' hne hocc' hocc))
      (Int.not_lt.mp (key hne hne' hocc hocc'))
  obtain ⟨x, ⟨hx, hxk, hxh, _⟩, _⟩ := hocc
  obtain ⟨y, ⟨hy, hyk, hyh, _⟩, _⟩ := hocc'
  have hsame := h.same_tenure hx hy (hxk.trans hyk.symm)
    (by rw [hxh.2, hyh.2, htok]) (hxh.1 ▸ hne) (hyh.1 ▸ hne')
  exact ⟨by rw [← hxh.1, hsame.1, hyh.1], htok⟩

/-- Whoever occupies the key at a time no write landed after is the
stored, unexpired holder. -/
theorem occupies_stored (h : History ws) (htime : Timely ws) (hne : hd ≠ "")
    (hnow : ∀ y ∈ ws, y.landed ≤ τ) (hocc : Occupies ws k hd tok τ) :
    ∃ r, storedAt ws k = some r ∧ r.holder = hd ∧ r.fencingToken = tok ∧ τ < r.expiresAt := by
  by_cases hheld : HeldBy hd tok (storedAt ws k)
  · obtain ⟨x, hl, _, hexp, _⟩ := hocc
    exact ⟨x.new, hl.eq_stored h hheld, hl.2.2.1.1, hl.2.2.1.2, hexp⟩
  · obtain ⟨⟨y, hy, _, hlt⟩, _⟩ := occupies_separated h htime hne hocc hheld
    have := hnow y hy
    lia

end Exclusion

end Berth.Lease
