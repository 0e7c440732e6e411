/-
Berth.Lease.LedgerTheorems — ledgers, and the memory store as one.

The general facts about the records written so far, and the first backend
that follows them: the map of a `MemStore` holds the last record of every
key. Every backend is shown to follow a ledger in the same way, one call
at a time (`Simulates`).
-/
import Berth.Lease.Backends

namespace Berth.Lease

open Berth.Interleave

open K8s (StoreCall StoreOutcome)

variable {r r' : Record} {key : Key}

/-! ## Ledgers -/

namespace Ledger

variable {w : Ledger}

/-- Every record written was proper, and its version counts writes. -/
def Sound (w : Ledger) : Prop := ∀ r ∈ w, r.Proper ∧ 1 ≤ r.version ∧ r.version ≤ w.length

@[simp] theorem latest_nil : latest [] key = none := rfl

theorem latest_cons : latest (r :: w) key = if r.key = key then some r else w.latest key := by
  by_cases h : r.key = key <;> simp [latest, h]

/-- What a write leaves. -/
theorem latest_written {rec : Record} {v : Int} :
    latest ({ rec with version := v + 1 } :: w) key =
      if key = rec.key then some { rec with version := v + 1 } else w.latest key := by
  rw [latest_cons]
  exact if_congr eq_comm rfl rfl

theorem latest_eq_some (h : w.latest key = some r) : r ∈ w ∧ r.key = key :=
  ⟨List.mem_of_find?_eq_some h, by simpa using List.find?_some h⟩

theorem Sound.latest (hw : Sound w) (h : w.latest key = some r) :
    r.Proper ∧ 1 ≤ r.version ∧ r.version ≤ w.length := hw r (latest_eq_some h).1

/-- The listing holds the last record of every key. -/
theorem mem_current_iff : r ∈ w.current ↔ w.latest r.key = some r := by
  induction w with
  | nil => simp [current]
  | cons r' w ih =>
    rw [current, List.mem_cons, List.mem_filter, ih, latest_cons]
    by_cases h : r'.key = r.key
    · simp [h, eq_comm]
    · have hne : r ≠ r' := fun heq => h (heq ▸ rfl)
      simp [h, hne, Ne.symm h]

theorem nodup_current : (w.current.map Record.key).Nodup := by
  induction w with
  | nil => exact List.nodup_nil
  | cons r w ih =>
    rw [current, List.map_cons, List.nodup_cons]
    refine ⟨?_, (List.filter_sublist.map _).nodup ih⟩
    rw [List.mem_map]
    rintro ⟨r', hr', hkey⟩
    have hne := (List.mem_filter.mp hr').2
    simp [hkey] at hne

theorem version_of_latest (h : w.latest key = some r) : w.version key = r.version := by
  rw [version, h]
  rfl

theorem version_of_none (h : w.latest key = none) : w.version key = 0 := by
  rw [version, h]
  rfl

theorem Sound.version_bounds (hw : Sound w) :
    0 ≤ w.version key ∧ w.version key ≤ w.length := by
  cases h : w.latest key with
  | none =>
    rw [version_of_none h]
    omega
  | some r =>
    rw [version_of_latest h]
    obtain ⟨-, hpos, hle⟩ := hw.latest h
    omega

/-- A store that follows the ledger lets through what the ledger does. -/
theorem Sound.permits_iff (hw : Sound w) {v : Int} :
    MemStore.permits (w.latest key) v = true ↔ v = w.version key := by
  cases h : w.latest key with
  | none =>
    rw [version_of_none h]
    by_cases hv : v = 0 <;> simp [MemStore.permits, hv]
  | some r =>
    have hpos := (hw.latest h).2.1
    rw [version_of_latest h]
    by_cases hv : v = 0
    · subst hv
      simp only [MemStore.permits, if_true, Option.isNone_some, Bool.false_eq_true, false_iff]
      omega
    · rw [MemStore.permits, if_neg hv, Option.any_some, beq_iff_eq]
      exact eq_comm

theorem Sound.cons (hw : Sound w) {rec : Record} (hrec : rec.Proper) {v : Int}
    (hv : v = w.version rec.key) : Sound ({ rec with version := v + 1 } :: w) := by
  intro r hr
  rw [List.length_cons, Int.natCast_succ]
  rcases List.mem_cons.mp hr with rfl | hr
  · obtain ⟨hnonneg, hle⟩ : 0 ≤ v ∧ v ≤ (w.length : Int) := hv ▸ hw.version_bounds
    exact ⟨⟨hrec.key, hrec.ttl, hrec.token⟩, Int.add_le_add_right hnonneg 1,
      Int.add_le_add_right hle 1⟩
  · obtain ⟨hproper, hpos, hle⟩ := hw r hr
    exact ⟨hproper, hpos, Int.le_trans hle (Int.le_add_of_nonneg_right (by decide))⟩

theorem step_put {v : Int} {rec : Record} (h : v = w.version rec.key) :
    w.step (.put v rec) = (.done (.ok ()), { rec with version := v + 1 } :: w) := by
  rw [step, if_pos h]

theorem step_put_conflict {v : Int} {rec : Record} (h : v ≠ w.version rec.key) :
    w.step (.put v rec) = (.done (.error errConflict), w) := by
  rw [step, if_neg h]

/-- A proper call, when the ledger has room for one more version. -/
def Takes (w : Ledger) (c : StoreCall) : Prop := c.Proper ∧ (w.length : Int) < maxInt64

theorem length_step (c : StoreCall) : (w.step c).2.length ≤ w.length + 1 := by
  cases c with
  | get key =>
    rw [step]
    split <;> exact Nat.le_succ _
  | list => exact Nat.le_succ _
  | put v rec =>
    rw [step]
    split
    · exact Nat.le_refl _
    · exact Nat.le_succ _

/-- A program that is not too long never runs out of versions. -/
theorem along_takes {calls : List StoreCall} (h : ∀ c ∈ calls, c.Proper)
    (hlen : (w.length + calls.length : Int) ≤ maxInt64) : Along step Takes w calls := by
  induction calls generalizing w with
  | nil => trivial
  | cons c calls ih =>
    obtain ⟨hc, hcalls⟩ := List.forall_mem_cons.mp h
    have hstep := length_step (w := w) c
    rw [List.length_cons] at hlen
    exact ⟨⟨hc, by omega⟩, ih hcalls (by omega)⟩

end Ledger

theorem Ledger.nodup_kept {keep : Time → Time} {w : Ledger} :
    (w.current.map (Record.kept keep)).Nodup := by
  refine List.Nodup.of_map Record.key ?_
  rw [List.map_map]
  exact Ledger.nodup_current

/-! ## Memory -/

namespace MemStore

variable {s : MemStore} {w : Ledger}

/-- The map holds the last record of every key. -/
structure Shows (s : MemStore) (w : Ledger) : Prop where
  filled : s.Filled
  lookup : ∀ key, s.lookup key = w.latest key
  sound : w.Sound

theorem nodup_list (h : s.Filled) : (s.list.map Record.key).Nodup := by
  have heq : s.list.map Record.key = s.records.entries.map Sigma.fst := by
    rw [list, List.map_map]
    refine List.map_congr_left fun x hx => ?_
    exact (h x.1 x.2 (AList.mem_lookup_iff.mpr hx)).1
  rw [heq]
  exact s.records.nodupKeys

theorem Shows.perm (h : Shows s w) : s.list.Perm w.current := by
  have hnodup : s.list.Nodup := .of_map _ (nodup_list h.filled)
  refine (List.perm_ext_iff_of_nodup hnodup (.of_map _ Ledger.nodup_current)).mpr fun r => ?_
  rw [mem_list_iff h.filled, Ledger.mem_current_iff, h.lookup]

theorem Shows.get (h : Shows s w) (key : Key) :
    Reads id (w.step (.get key)).1 (.record (s.get key)) ∧ (w.step (.get key)).2 = w := by
  rw [Ledger.step, MemStore.get, h.lookup]
  cases w.latest key with
  | none => exact ⟨rfl, rfl⟩
  | some r => exact ⟨rfl, rfl⟩

theorem Shows.put (h : Shows s w) {v : Int} {rec : Record} (hrec : rec.Proper) :
    (w.step (.put v rec)).1 = .done (s.put v rec).1 ∧
      Shows (s.put v rec).2 (w.step (.put v rec)).2 := by
  by_cases hv : v = w.version rec.key
  · have hp : permits (s.lookup rec.key) v = true := by
      rw [h.lookup]
      exact h.sound.permits_iff.mpr hv
    have hlook := (put_ok (put_of_permits hp)).2
    rw [Ledger.step_put hv, put_of_permits hp]
    refine ⟨rfl, fun k r hr => ?_, fun k => ?_, h.sound.cons hrec hv⟩
    · rw [hlook] at hr
      split at hr
      · next hk =>
        cases hr
        refine ⟨hk.symm, ?_⟩
        have hnonneg : 0 ≤ v := hv ▸ h.sound.version_bounds.1
        exact Int.add_le_add_right hnonneg 1
      · exact h.filled k r hr
    · rw [hlook, h.lookup]
      exact Ledger.latest_written.symm
  · have hp : permits (s.lookup rec.key) v = false := by
      rw [h.lookup, ← Bool.not_eq_true, h.sound.permits_iff]
      exact hv
    rw [Ledger.step_put_conflict hv, put_of_not_permits hp]
    exact ⟨rfl, h⟩

theorem simulates : Simulates call Ledger.step Ledger.Takes Shows (Reads id) where
  returns := by
    intro c s w _ _
    cases c with
    | get key => exact ⟨_, _, rfl, rfl⟩
    | list => exact ⟨_, _, ⟨_, .refl _, rfl⟩, rfl⟩
    | put v rec => exact ⟨_, _, rfl, rfl⟩
  follows := by
    intro c s w o s' hc h hcall
    cases c with
    | get key =>
      obtain ⟨rfl, rfl⟩ := hcall
      obtain ⟨hreads, hsame⟩ := h.get key
      rw [hsame]
      exact ⟨hreads, h⟩
    | list =>
      obtain ⟨⟨rs, hperm, rfl⟩, rfl⟩ := hcall
      refine ⟨⟨rs, rfl, ?_⟩, h⟩
      rw [show Record.kept id = id from rfl, List.map_id]
      exact hperm.trans h.perm
    | put v rec =>
      obtain ⟨rfl, rfl⟩ := hcall
      obtain ⟨heq, hshows⟩ := h.put (v := v) hc.1
      rw [heq]
      exact ⟨rfl, hshows⟩

theorem shows_nil : Shows new [] where
  filled := filled_new
  lookup := lookup_new
  sound := by
    intro r hr
    cases hr

end MemStore

end Berth.Lease
