/-
Berth.Server.SweepTheorems — the sweep under races.

A sweep decides all its writes from one scan and one clock reading, and
performs them one by one while others write. What it sets out to do is a
plain list, `targets`; walking along the loop shows that the writes it
attempts are that list, or the part of it before a cancelled context
(`loop_tries`). Everything else is said about the attempts: one that goes
through replaces the very record that was scanned, by the store's
compare-and-swap, and none is repeated.
-/
import Berth.Server.RunTheorems

namespace Berth.Server

open Berth.Interleave Berth.Lease

/-! ## What a sweep sets out to do -/

/-- A held record that expired at least `grace` ago. -/
def due (now : Time) (grace : Duration) (r : Record) : Bool :=
  !r.tombstone && decide (r.expiresAt + grace ≤ now)

/-- The writes of a sweep, in the order of its scan. -/
def targets (now : Time) (grace : Duration) (rs : List Record) : List (Int × Record) :=
  (rs.filter (due now grace)).map fun r => (r.version, Manager.tombstoneFrom r now)

/-- What a sweep leaves of a record. -/
def sweptTo (now : Time) (grace : Duration) (r : Record) : Record :=
  if due now grace r then { Manager.tombstoneFrom r now with version := r.version + 1 } else r

def attempt? : Event StoreSig → Option (Int × Record)
  | ⟨.put v rec, _⟩ => some (v, rec)
  | _ => none

/-- The writes among the events of a call. -/
def attempts (evs : List (Event StoreSig)) : List (Int × Record) := evs.filterMap attempt?

def cancelled : Event StoreSig → Bool
  | ⟨.ctxDone, b⟩ => b
  | _ => false

def failed : Event StoreSig → Bool
  | ⟨.put _ _, .error _⟩ => true
  | _ => false

/-- The context was live whenever the call looked. -/
def Live (evs : List (Event StoreSig)) : Prop := ∀ x ∈ evs, cancelled x = false

/-- No write failed. -/
def Unfailing (evs : List (Event StoreSig)) : Prop := ∀ x ∈ evs, failed x = false

instance (evs : List (Event StoreSig)) : Decidable (Live evs) :=
  inferInstanceAs (Decidable (∀ x ∈ evs, cancelled x = false))

variable {cfg : Config} {i : Nat} {ms : List (Moment (machine cfg))} {w w' : World}
variable {now : Time} {grace : Duration} {r : Record} {rs : List Record}
variable {evs evs' : List (Event StoreSig)}

theorem due_iff : due now grace r = true ↔ r.tombstone = false ∧ r.expiresAt + grace ≤ now := by
  simp [due]

/-- The test by which the loop skips a record. -/
theorem skip_eq : (r.tombstone || decide (now < r.expiresAt + grace)) = !due now grace r := by
  unfold due
  rw [Bool.not_and, Bool.not_not, ← decide_not]
  simp only [Int.not_le]

theorem mem_targets {v : Int} {rec : Record} :
    (v, rec) ∈ targets now grace rs ↔
      ∃ r ∈ rs, due now grace r = true ∧ v = r.version ∧ rec = Manager.tombstoneFrom r now := by
  simp only [targets, List.mem_map, List.mem_filter, Prod.mk.injEq, and_assoc]
  constructor
  · rintro ⟨r, hr, hdue, rfl, rfl⟩
    exact ⟨r, hr, hdue, rfl, rfl⟩
  · rintro ⟨r, hr, hdue, rfl, rfl⟩
    exact ⟨r, hr, hdue, rfl, rfl⟩

theorem targets_cons_due (h : due now grace r = true) :
    targets now grace (r :: rs) =
      (r.version, Manager.tombstoneFrom r now) :: targets now grace rs := by
  simp [targets, h]

theorem targets_cons_not_due (h : due now grace r = false) :
    targets now grace (r :: rs) = targets now grace rs := by
  simp [targets, h]

@[simp] theorem attempts_append : attempts (evs ++ evs') = attempts evs ++ attempts evs' :=
  List.filterMap_append

theorem mem_attempts {m : Moment (machine cfg)} {v : Int} {rec : Record} (hm : m ∈ ms)
    (hi : m.tid = i) (hev : m.event.1 = .put v rec) : (v, rec) ∈ attempts (events i ms) := by
  refine List.mem_filterMap.mpr ⟨m.event, mem_events.mpr ⟨m, hm, hi, rfl⟩, ?_⟩
  rcases hevent : m.event with ⟨o, a⟩
  rw [hevent] at hev
  cases hev
  rfl

/-- A record that is held after a sweep was not due. -/
theorem not_due_of_held (h : (sweptTo now grace r).tombstone = false) :
    now - grace < (sweptTo now grace r).expiresAt := by
  unfold sweptTo at h ⊢
  split at h
  · cases h
  rename_i hdue
  rw [if_neg hdue]
  have hlate : ¬ r.expiresAt + grace ≤ now := fun hle => hdue (due_iff.mpr ⟨h, hle⟩)
  exact Int.sub_lt_iff.mpr (Int.not_le.mp hlate)

/-! ## The loop -/

/-- A write failed and the context was done. -/
def Stopped (evs : List (Event StoreSig)) : Prop := ¬ Live evs ∧ ¬ Unfailing evs

/-- The attempts of a sweep: a first part of its targets, and all of them
once it has returned, unless it was stopped. -/
def Tries {α : Type} (evs : List (Event StoreSig)) (q : Prog StoreSig α) (now : Time)
    (grace : Duration) (rs : List Record) : Prop :=
  attempts evs <+: targets now grace rs ∧
    (q.result?.isSome = true → attempts evs = targets now grace rs ∨ Stopped evs)

variable {q : Prog StoreSig Nat}

theorem Stopped.append_left (h : Stopped evs') : Stopped (evs ++ evs') := by
  refine ⟨fun hlive => h.1 ?_, fun hu => h.2 ?_⟩
  · exact fun x hx => hlive x (List.mem_append_right _ hx)
  · exact fun x hx => hu x (List.mem_append_right _ hx)

/-- Events before the loop. -/
theorem Tries.prepend (hevs : attempts evs = []) (h : Tries evs' q now grace rs) :
    Tries (evs ++ evs') q now grace rs := by
  rw [Tries, attempts_append, hevs, List.nil_append]
  refine ⟨h.1, fun hq => ?_⟩
  rcases h.2 hq with heq | hstop
  · exact .inl heq
  · exact .inr hstop.append_left

/-- One more record, for which the events `evs` were performed. -/
theorem Tries.step (hdue : due now grace r = true)
    (hevs : attempts evs = [(r.version, Manager.tombstoneFrom r now)])
    (h : Tries evs' q now grace rs) : Tries (evs ++ evs') q now grace (r :: rs) := by
  rw [Tries, attempts_append, hevs, targets_cons_due hdue, List.singleton_append,
    List.prefix_cons_inj]
  refine ⟨h.1, fun hq => ?_⟩
  rcases h.2 hq with heq | hstop
  · rw [heq]
    exact .inl rfl
  · exact .inr hstop.append_left

/-- A sweep that stands in the middle of the loop. -/
theorem Tries.pending (hq : q.result? = none) (h : attempts evs <+: targets now grace rs) :
    Tries evs q now grace rs := by
  refine ⟨h, fun hsome => ?_⟩
  rw [hq] at hsome
  cases hsome

theorem loop_tries {n : Nat} (h : Follows i (TTLEnforcer.collectLoop now grace rs n) ms q) :
    Tries (events i ms) q now grace rs := by
  induction rs generalizing ms n with
  | nil =>
    obtain ⟨rfl, hms⟩ := Follows.of_ret h
    rw [events_others hms]
    exact ⟨List.prefix_refl _, fun _ => .inl rfl⟩
  | cons r rs ih =>
    unfold TTLEnforcer.collectLoop at h
    rw [skip_eq] at h
    cases hdue : due now grace r with
    | false =>
      rw [hdue] at h
      rw [Tries, targets_cons_not_due hdue]
      exact ih h
    | true =>
      rw [hdue] at h
      obtain ⟨hnone, hms⟩ | ⟨pre, m, a, post, rfl, hpre, hm, h₁⟩ := follows_put h
      · rw [events_others hms]
        exact .pending hnone List.nil_prefix
      rw [events_append, events_others hpre, events_cons_own hm.1, hm.2, List.nil_append]
      have hone : ∀ xs : List (Event StoreSig), attempts xs = [] →
          attempts (⟨StoreOp.put r.version (Manager.tombstoneFrom r now), a⟩ :: xs) =
            [(r.version, Manager.tombstoneFrom r now)] := by
        intro xs hxs
        show _ :: attempts xs = _
        rw [hxs]
      cases a with
      | ok u => exact Tries.step hdue (hone [] rfl) (ih h₁)
      | error e =>
        dsimp only at h₁
        split at h₁
        · exact Tries.step hdue (hone [] rfl) (ih h₁)
        -- neither written nor lost: the loop looks at its context
        obtain ⟨hnone, hpost⟩ | ⟨pre₂, m₂, b, post₂, rfl, hpre₂, hm₂, h₂⟩ := follows_ctxDone h₁
        · rw [events_others hpost]
          refine .pending hnone ?_
          rw [hone [] rfl, targets_cons_due hdue]
          exact List.prefix_append [_] _
        · rw [events_append, events_others hpre₂, events_cons_own hm₂.1, hm₂.2, List.nil_append]
          have hput := hone [⟨StoreOp.ctxDone, b⟩] rfl
          cases b with
          | false => exact Tries.step hdue hput (ih h₂)
          | true =>
            obtain ⟨rfl, hpost₂⟩ := Follows.of_ret h₂
            rw [events_others hpost₂]
            refine ⟨?_, fun _ => .inr ⟨fun hlive => ?_, fun hu => ?_⟩⟩
            · rw [hput, targets_cons_due hdue]
              exact List.prefix_append [_] _
            · cases hlive _ (List.mem_cons_of_mem _ List.mem_cons_self)
            · cases hu _ List.mem_cons_self

/-! ## The scan -/

/-- The scan and the clock reading with which a sweep begins. -/
def Scanned (evs : List (Event StoreSig)) (rs : List Record) (now : Time) : Prop :=
  ∃ rest, evs = ⟨StoreOp.list, Except.ok rs⟩ :: ⟨StoreOp.now, now⟩ :: rest

/-- The scan failed, and the sweep did nothing else. -/
def Refused (evs : List (Event StoreSig)) : Prop :=
  ∃ err, evs = [⟨StoreOp.list, Except.error err⟩]

/-- A sweep that has written anything has scanned the store at its first
moment `l`, read the clock, and gone on along its loop. -/
structure Course (e : TTLEnforcer) (i : Nat) (ms : List (Moment (machine cfg)))
    (q : Prog StoreSig Nat) (rs : List Record) (now : Time)
    (pre : List (Moment (machine cfg))) (l : Moment (machine cfg))
    (post : List (Moment (machine cfg))) : Prop where
  split : ms = pre ++ l :: post
  before : ∀ m ∈ pre, m.tid ≠ i
  listed : Told i .list (.ok rs) l
  scanned : Scanned (events i ms) rs now
  tries : Tries (events i ms) q now e.grace rs

theorem collect_course {e : TTLEnforcer} (h : Follows i e.collect ms q) :
    (attempts (events i ms) = [] ∧ (∀ rs now, ¬ Scanned (events i ms) rs now) ∧
      (q.result?.isSome = true → Refused (events i ms))) ∨
      ∃ rs now pre l post, Course e i ms q rs now pre l post := by
  obtain ⟨hnone, hms⟩ | ⟨pre, l, a, post, rfl, hpre, hl, h₁⟩ := follows_list h
  · rw [events_others hms, hnone]
    refine .inl ⟨rfl, fun rs now hs => ?_, nofun⟩
    obtain ⟨rest, hs⟩ := hs
    cases hs
  have hev : events i (pre ++ l :: post) = ⟨StoreOp.list, a⟩ :: events i post := by
    rw [events_append, events_others hpre, events_cons_own hl.1, hl.2, List.nil_append]
  cases a with
  | error err =>
    obtain ⟨rfl, hpost⟩ := Follows.of_ret h₁
    rw [hev, events_others hpost]
    refine .inl ⟨rfl, fun rs now hs => ?_, fun _ => ⟨err, rfl⟩⟩
    obtain ⟨rest, hs⟩ := hs
    cases hs
  | ok rs =>
    obtain ⟨hnone, hpost⟩ | ⟨mid, c, now, post₂, rfl, hmid, hc, h₂⟩ := follows_now h₁
    · rw [hev, events_others hpost, hnone]
      refine .inl ⟨rfl, fun rs now hs => ?_, nofun⟩
      obtain ⟨rest, hs⟩ := hs
      cases hs
    · have hev₂ : events i (mid ++ c :: post₂) = ⟨StoreOp.now, now⟩ :: events i post₂ := by
        rw [events_append, events_others hmid, events_cons_own hc.1, hc.2, List.nil_append]
      have htries := loop_tries h₂
      refine .inr ⟨rs, now, pre, l, mid ++ c :: post₂, rfl, hpre, hl, ?_, ?_⟩
      · rw [hev, hev₂]
        exact ⟨_, rfl⟩
      · rw [hev, hev₂]
        exact Tries.prepend
          (rfl : attempts [⟨StoreOp.list, Except.ok rs⟩, ⟨StoreOp.now, now⟩] = []) htries

/-! ## Writes that go through -/

/-- Moment `m` turns record `r` into its tombstone and nothing else. -/
structure Sweeps (now : Time) (grace : Duration) (r : Record) (m : Moment (machine cfg)) : Prop where
  held : r.tombstone = false
  expired : r.expiresAt + grace ≤ now
  replaced : m.before.store.lookup r.key = some r
  stored : m.after.store.lookup r.key =
    some { Manager.tombstoneFrom r now with version := r.version + 1 }
  others : ∀ k, k ≠ r.key → m.after.store.lookup k = m.before.store.lookup k

section Course

variable {e : TTLEnforcer} {l m : Moment (machine cfg)} {pre post : List (Moment (machine cfg))}

/-- What a sweep saw is what was stored. -/
theorem Course.stored (hs : Stretch cfg w ms w')
    (hc : Course e i ms q rs now pre l post) :
    l.after.store = l.before.store ∧ Stretch cfg l.after post w' ∧
      ∀ r, r ∈ rs ↔ l.after.store.lookup r.key = some r := by
  rw [hc.split] at hs
  obtain ⟨hpre, hl, hpost⟩ := hs.of_append_cons
  obtain ⟨hsame, hanswer⟩ := hl.told_list hc.listed
  refine ⟨hsame, hpost, fun r => ?_⟩
  rcases hanswer with ⟨rs', heq, hperm⟩ | ⟨err, heq, -⟩
  · cases heq
    rw [hperm.mem_iff, hsame]
    exact MemStore.mem_list_iff hpre.filled_end
  · cases heq

/-- A sweep's own change is the tombstone of a record it saw. -/
theorem Course.sweeps (hs : Stretch cfg w ms w')
    (hc : Course e i ms q rs now pre l post) (hm : m ∈ ms) (hi : m.tid = i)
    (hchange : m.after.store ≠ m.before.store) :
    m ∈ post ∧ ∃ r ∈ rs, Sweeps now e.grace r m := by
  obtain ⟨hsame, hpost, hstored⟩ := hc.stored hs
  rcases (hs.genuine m hm).cases with heq | ⟨v, rec, hev, hperm, hafter⟩
  · exact absurd heq hchange
  have hmem : m ∈ post := by
    rw [hc.split] at hm
    rcases List.mem_append.mp hm with hm | hm
    · exact absurd hi (hc.before m hm)
    · rcases List.mem_cons.mp hm with rfl | hm
      · exact absurd hsame hchange
      · exact hm
  -- the write is one of the sweep's attempts, so one of its targets
  obtain ⟨r, hr, hdue, rfl, rfl⟩ := mem_targets.mp (hc.tries.1.subset (mem_attempts hm hi hev))
  obtain ⟨hheld, hexpired⟩ := due_iff.mp hdue
  obtain ⟨ms₁, ms₂, rfl⟩ := List.append_of_mem hmem
  have hfound := (hstored r).mp hr
  have hcur : m.before.store.lookup r.key = l.after.store.lookup r.key := by
    rw [← hpost.of_append_cons.1.permits_iff, hfound]
    exact hperm
  refine ⟨hmem, r, hr, hheld, hexpired, hcur.trans hfound, ?_, fun k hk => ?_⟩
  · rw [hafter]
    exact if_pos rfl
  · rw [hafter]
    exact if_neg (Ne.symm hk)

/-- No one else writes. -/
def Undisturbed (i : Nat) (ms : List (Moment (machine cfg))) : Prop :=
  ∀ m ∈ ms, m.tid ≠ i → m.after.store = m.before.store

/-- With no one else writing, a record changes only if it was due. -/
theorem Course.changes_due {k : Key} (hs : Stretch cfg w ms w')
    (hc : Course e i ms q rs now pre l post) (hquiet : Undisturbed i post) (hm : m ∈ post)
    (hchange : Changes k m) :
    ∃ r, l.after.store.lookup k = some r ∧ due now e.grace r = true ∧
      m.before.store.lookup k = some r := by
  have hstore : m.after.store ≠ m.before.store := fun heq => hchange (by rw [heq])
  have hi : m.tid = i := by
    by_contra hi
    exact hstore (hquiet m hm hi)
  have hms : m ∈ ms := by
    rw [hc.split]
    exact List.mem_append_right _ (List.mem_cons_of_mem _ hm)
  obtain ⟨-, r, hr, hsweep⟩ := hc.sweeps hs hms hi hstore
  have hk : r.key = k := by
    by_contra hk
    exact hchange (hsweep.others k (Ne.symm hk))
  subst hk
  exact ⟨r, ((hc.stored hs).2.2 r).mp hr, due_iff.mpr ⟨hsweep.held, hsweep.expired⟩,
    hsweep.replaced⟩

/-- A due record is turned into its tombstone at some moment. -/
theorem Course.exists_sweeps (hs : Stretch cfg w ms w')
    (hc : Course e i ms q rs now pre l post) (hq : q.result?.isSome = true)
    (hok : Unfailing (events i ms)) (hr : r ∈ rs) (hdue : due now e.grace r = true) :
    ∃ m ∈ post, m.after.store.lookup r.key =
      some { Manager.tombstoneFrom r now with version := r.version + 1 } := by
  have hall : attempts (events i ms) = targets now e.grace rs :=
    (hc.tries.2 hq).resolve_right fun hstop => hstop.2 hok
  have htarget : (r.version, Manager.tombstoneFrom r now) ∈ attempts (events i ms) := by
    rw [hall]
    exact mem_targets.mpr ⟨r, hr, hdue, rfl, rfl⟩
  obtain ⟨x, hx, hattempt⟩ := List.mem_filterMap.mp htarget
  obtain ⟨m, hm, hi, rfl⟩ := mem_events.mp hx
  have hput : ∃ a, m.event = ⟨StoreOp.put r.version (Manager.tombstoneFrom r now), a⟩ := by
    rcases hev : m.event with ⟨o, a⟩
    rw [hev] at hattempt
    cases o with
    | put v rec =>
      cases hattempt
      exact ⟨a, rfl⟩
    | _ => cases hattempt
  obtain ⟨a, hev⟩ := hput
  have hfine := hok _ hx
  rw [hev] at hfine
  -- the write was answered with success, so it was let through
  rcases (hs.genuine m hm).told_put ⟨hi, hev⟩ with ⟨-, -, hafter⟩ | ⟨-, ⟨hbad, -⟩ | ⟨err, hbad, -⟩⟩
  · have hnew := (hafter r.key).trans (if_pos rfl)
    refine ⟨m, ?_, hnew⟩
    rw [hc.split] at hm
    rcases List.mem_append.mp hm with hm | hm
    · exact absurd hi (hc.before m hm)
    rcases List.mem_cons.mp hm with rfl | hm
    · have hlist := hc.listed.2
      rw [hev] at hlist
      cases hlist
    · exact hm
  · rw [hbad] at hfine
    cases hfine
  · rw [hbad] at hfine
    cases hfine

/-- A sweep that is neither disturbed nor failed sweeps what was due and
leaves the rest. -/
theorem Course.complete (hs : Stretch cfg w ms w') (hc : Course e i ms q rs now pre l post)
    (hq : q.result?.isSome = true) (hquiet : Undisturbed i post) (hok : Unfailing (events i ms))
    (k : Key) :
    w'.store.lookup k = (l.before.store.lookup k).map (sweptTo now e.grace) := by
  obtain ⟨hsame, hpost, hstored⟩ := hc.stored hs
  rw [← hsame]
  cases hl : l.after.store.lookup k with
  | none =>
    rw [Option.map_none, ← hl]
    by_contra hne
    obtain ⟨m, hm, hchange⟩ := hpost.exists_changes hne
    obtain ⟨r, hr, -⟩ := hc.changes_due hs hquiet hm hchange
    rw [hl] at hr
    cases hr
  | some r =>
    obtain ⟨rfl, -⟩ := hpost.filled k r hl
    rw [Option.map_some, sweptTo]
    cases hdue : due now e.grace r with
    | false =>
      rw [if_neg Bool.false_ne_true, ← hl]
      by_contra hne
      obtain ⟨m, hm, hchange⟩ := hpost.exists_changes hne
      obtain ⟨r', hr', hdue', -⟩ := hc.changes_due hs hquiet hm hchange
      rw [hl] at hr'
      cases hr'
      rw [hdue] at hdue'
      cases hdue'
    | true =>
      rw [if_pos rfl]
      obtain ⟨m, hm, hnew⟩ := hc.exists_sweeps hs hq hok ((hstored r).mpr hl) hdue
      obtain ⟨ms₁, ms₂, rfl⟩ := List.append_of_mem hm
      obtain ⟨-, -, hafter⟩ := hpost.of_append_cons
      rw [← hnew]
      -- a later change would find the scanned version once more
      by_contra hne
      obtain ⟨m', hm', hchange⟩ := hafter.exists_changes hne
      obtain ⟨r', hr', -, hfound⟩ := hc.changes_due hs hquiet
        (List.mem_append_right _ (List.mem_cons_of_mem _ hm')) hchange
      rw [hl] at hr'
      cases hr'
      obtain ⟨ms₃, ms₄, rfl⟩ := List.append_of_mem hm'
      have hpassed : ∃ x, m.after.store.lookup r.key = some x ∧ r.version < x.version :=
        ⟨_, hnew, Int.lt_succ r.version⟩
      obtain ⟨x, hx, hlt⟩ := (hafter.of_append_cons.1.newer r.key).version_lt hpassed
      rw [hfound] at hx
      cases hx
      omega

end Course

/-! ## The sweep -/

/-- The sweep is safe and complete under races. In every run of any calls:
a change a sweep makes replaces exactly a record it scanned, which was
held and had expired by its grace at its clock reading, with a tombstone
of the same key, token and acquisition, one version on, and no version is
replaced twice, by whatever calls. A sweep that has returned has scanned,
unless the scan failed; it has then attempted every due record of its
scan, whatever the answers, unless a write failed and its context was
done; and if no one else wrote after its
scan and no write failed, it has swept the due records, left the others,
and no held record is left that expired by the grace. -/
theorem sweep_safe_complete {w₀ : World} {p : Pool (machine cfg)} (h₀ : w₀.store.Filled)
    (hrun : Pool.Run (Pool.empty w₀) ms p) :
    (∀ i t e, p.threads[i]? = some t → t.call = .collect e →
      (∀ m ∈ ms, m.tid = i → m.after.store ≠ m.before.store →
        ∃ rs now, Scanned (events i ms) rs now ∧ ∃ r ∈ rs, Sweeps now e.grace r m) ∧
      (∀ rs now, Scanned (events i ms) rs now → t.prog.result?.isSome = true →
        (Live (events i ms) → attempts (events i ms) = targets now e.grace rs) ∧
        ∃ pre l post, ms = pre ++ l :: post ∧ (∀ m ∈ pre, m.tid ≠ i) ∧ Told i .list (.ok rs) l ∧
          (Undisturbed i post → Unfailing (events i ms) →
            (∀ k, p.shared.store.lookup k =
              (l.before.store.lookup k).map (sweptTo now e.grace)) ∧
            ∀ k r, p.shared.store.lookup k = some r → r.tombstone = false →
              now - e.grace < r.expiresAt)) ∧
      (t.prog.result?.isSome = true →
        (∃ rs now, Scanned (events i ms) rs now) ∨ Refused (events i ms))) ∧
    ms.Pairwise fun m m' => ∀ k v, Replaces k v m → ¬ Replaces k v m' := by
  have hs := stretch_of_run hrun h₀
  refine ⟨fun i t e ht hcall => ?_, hs.replaces_once⟩
  have hfollows := hrun.follows.2 i t ht
  rw [hcall] at hfollows
  obtain ⟨q, hcollect, hq⟩ := Follows.of_map (p := e.collect) (f := Outcome.swept) hfollows
  have hdone : t.prog.result?.isSome = true → q.result?.isSome = true := by
    intro hfin
    cases q with
    | ret n => rfl
    | op o k =>
      rw [hq] at hfin
      cases hfin
  rcases collect_course hcollect with ⟨hnone, hscan, hrefused⟩ | ⟨rs, now, pre, l, post, hc⟩
  · refine ⟨fun m hm hi hchange => ?_, fun rs now hscanned => absurd hscanned (hscan rs now),
      fun hfin => .inr (hrefused (hdone hfin))⟩
    rcases (hs.genuine m hm).cases with heq | ⟨v, rec, hev, -, -⟩
    · exact absurd heq hchange
    · have hattempt := mem_attempts hm hi hev
      rw [hnone] at hattempt
      cases hattempt
  · refine ⟨fun m hm hi hchange => ?_, fun rs' now' hscanned hfin => ?_,
      fun _ => .inl ⟨rs, now, hc.scanned⟩⟩
    · obtain ⟨-, r, hr, hsweep⟩ := hc.sweeps hs hm hi hchange
      exact ⟨rs, now, hc.scanned, r, hr, hsweep⟩
    · obtain ⟨rest, hrest⟩ := hc.scanned
      obtain ⟨rest', hrest'⟩ := hscanned
      rw [hrest] at hrest'
      cases hrest'
      refine ⟨fun hlive => (hc.tries.2 (hdone hfin)).resolve_right fun hstop => hstop.1 hlive,
        pre, l, post, hc.split, hc.before, hc.listed, fun hquiet hok => ?_⟩
      have hcomplete := hc.complete hs (hdone hfin) hquiet hok
      refine ⟨hcomplete, fun k r hr hheld => ?_⟩
      rw [hcomplete, Option.map_eq_some_iff] at hr
      obtain ⟨r₀, -, rfl⟩ := hr
      exact not_due_of_held hheld

/-- Two leases that expire unrenewed. -/
def abandoned (name holder : String) : Record := ⟨⟨"jobs", name⟩, holder, 10, 0, 0, 1, 1⟩

/-- Two sweeps scan two expired leases; each loses one of them to the
other. -/
def crossingRun : List (Action (machine ⟨.single, none, false⟩)) :=
  [.spawn (.acquire ⟨"jobs", "nightly"⟩ "a" 10), .exec 0 .answer, .exec 0 (.clock 0),
   .exec 0 .answer, .spawn (.acquire ⟨"jobs", "weekly"⟩ "b" 10), .exec 1 .answer,
   .exec 1 (.clock 0), .exec 1 .answer, .env (100 : Int),
   .spawn (.collect (.new 5)), .spawn (.collect (.new 5)),
   .exec 2 (.order [abandoned "nightly" "a", abandoned "weekly" "b"]), .exec 2 (.clock 100),
   .exec 3 (.order [abandoned "weekly" "b", abandoned "nightly" "a"]), .exec 3 (.clock 100),
   .exec 2 .answer, .exec 3 .answer, .exec 2 .answer, .exec 3 .answer]

def crossed :
    List (Moment (machine ⟨.single, none, false⟩)) × Pool (machine ⟨.single, none, false⟩) :=
  (fresh ⟨.single, none, false⟩ 0).recorded crossingRun (by decide)

theorem sweep_safe_complete_crossed :
    attempts (events 2 crossed.1) =
      targets 100 5 [abandoned "nightly" "a", abandoned "weekly" "b"] := by
  have hrun : Pool.Run (fresh ⟨.single, none, false⟩ 0) crossed.1 crossed.2 := Pool.run_recorded _
  have hthread : ∃ t, crossed.2.threads[2]? = some t ∧ t.call = .collect (.new 5) ∧
      t.prog.result?.isSome = true := ⟨_, rfl, rfl, rfl⟩
  obtain ⟨t, ht, hcall, hret⟩ := hthread
  have hscan : Scanned (events 2 crossed.1) [abandoned "nightly" "a", abandoned "weekly" "b"] 100 :=
    ⟨_, rfl⟩
  have hlive : Live (events 2 crossed.1) := by decide
  exact (((sweep_safe_complete MemStore.filled_new hrun).1 2 t (.new 5) ht hcall).2.1 _ _ hscan hret).1
    hlive

end Berth.Server
