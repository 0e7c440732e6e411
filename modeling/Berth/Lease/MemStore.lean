/-
Berth.Lease.MemStore — the in-memory store
(`internal/lease/memstore.go`).

The Go map from keys to records is Mathlib's `AList`, which carries the
proof that no key occurs twice. The mutex makes each method one atomic
step; cancellation of the caller's context is a fault of the surrounding
machine (`Server/World.lean`) and not modelled here. `Put` is the
compare-and-swap every other store must match: version 0 creates,
otherwise the stored version must equal the expected one, and a
successful write stores the expected version plus one.
-/
import Berth.Lease.Record
import Mathlib.Data.List.AList

namespace Berth.Lease

/-- `MemStore`. -/
structure MemStore where
  records : AList (fun _ : Key => Record)

namespace MemStore

/-- `NewMemStore`. -/
def new : MemStore := ⟨∅⟩

/-- The record stored under `key`, if any. -/
def lookup (s : MemStore) (key : Key) : Option Record := s.records.lookup key

/-- `MemStore.Get`. -/
def get (s : MemStore) (key : Key) : Except Err Record :=
  match s.lookup key with
  | none => .error errNotFound
  | some r => .ok r

/-- `MemStore.List`; the order of a Go map is unspecified, so callers may
see any permutation of this. -/
def list (s : MemStore) : List Record := s.records.entries.map (·.2)

/-- The compare-and-swap predicate of `MemStore.Put`. -/
def permits (cur : Option Record) (expectedVersion : Int) : Bool :=
  if expectedVersion = 0 then cur.isNone
  else cur.any (fun r => r.version == expectedVersion)

/-- `MemStore.Put`, on a record that is not nil. -/
def put (s : MemStore) (expectedVersion : Int) (rec : Record) : Except Err Unit × MemStore :=
  if permits (s.lookup rec.key) expectedVersion then
    (.ok (), ⟨s.records.insert rec.key { rec with version := expectedVersion + 1 }⟩)
  else (.error errConflict, s)

/-- A store as `Put` leaves it: every record lies under its own key, and
its version counts at least the write that made it. -/
def Filled (s : MemStore) : Prop := ∀ k r, s.lookup k = some r → r.key = k ∧ 1 ≤ r.version

@[simp] theorem lookup_new (k : Key) : new.lookup k = none := by
  simp [new, lookup]

/-- A version-0 write needs an absent record. -/
theorem permits_zero {cur : Option Record} (h : permits cur 0 = true) : cur = none := by
  cases cur with
  | none => rfl
  | some r => simp [permits] at h

/-- Any other write needs the record at exactly that version. -/
theorem permits_version {cur : Option Record} {v : Int} (hv : v ≠ 0)
    (h : permits cur v = true) : ∃ r, cur = some r ∧ r.version = v := by
  cases cur with
  | none => simp [permits, hv] at h
  | some r => exact ⟨r, rfl, by simpa [permits, hv] using h⟩

/-- A successful `Put` replaced exactly the record it names. -/
theorem put_ok {s s' : MemStore} {v : Int} {rec : Record} (h : s.put v rec = (.ok (), s')) :
    permits (s.lookup rec.key) v = true ∧
      ∀ k, s'.lookup k =
        if k = rec.key then some { rec with version := v + 1 } else s.lookup k := by
  unfold put at h
  split at h
  · next hp =>
    refine ⟨hp, fun k => ?_⟩
    cases h
    by_cases hk : k = rec.key
    · subst hk; simp [lookup]
    · simp [lookup, hk, AList.lookup_insert_ne hk]
  · cases h

/-- A `Put` whose predicate holds succeeds. -/
theorem put_of_permits {s : MemStore} {v : Int} {rec : Record}
    (h : permits (s.lookup rec.key) v = true) :
    s.put v rec =
      (.ok (), ⟨s.records.insert rec.key { rec with version := v + 1 }⟩) := by
  simp [put, h]

/-- A `Put` whose predicate fails conflicts and changes nothing. -/
theorem put_of_not_permits {s : MemStore} {v : Int} {rec : Record}
    (h : permits (s.lookup rec.key) v = false) : s.put v rec = (.error errConflict, s) := by
  simp [put, h]

theorem filled_new : new.Filled := by
  intro k r h
  rw [lookup_new] at h
  cases h

/-- The listing holds every record, under its own key. -/
theorem mem_list_iff {s : MemStore} {r : Record} (h : s.Filled) :
    r ∈ s.list ↔ s.lookup r.key = some r := by
  unfold list
  rw [List.mem_map]
  constructor
  · rintro ⟨⟨k, r'⟩, hmem, rfl⟩
    have hl : s.lookup k = some r' := AList.mem_lookup_iff.mpr hmem
    rw [(h k r' hl).1]
    exact hl
  · intro hl
    exact ⟨⟨r.key, r⟩, AList.mem_lookup_iff.mp hl, rfl⟩

/-- The stored version is the one that lets a write through. -/
theorem permits_current {s : MemStore} {k : Key} (h : s.Filled) :
    permits (s.lookup k) (((s.lookup k).map Record.version).getD 0) = true := by
  cases hk : s.lookup k with
  | none => rfl
  | some r =>
    have hpos := (h k r hk).2
    have hne : r.version ≠ 0 := by omega
    simp [permits, hne]

/-! ## Versions only grow -/

/-- A key's record after some writes: the same, or one with a higher
version. -/
def Newer (o o' : Option Record) : Prop :=
  o' = o ∨ ∃ r', o' = some r' ∧ ∀ r, o = some r → r.version < r'.version

theorem Newer.refl (o : Option Record) : Newer o o := .inl rfl

theorem Newer.trans {a b c : Option Record} (h : Newer a b) (h' : Newer b c) : Newer a c := by
  rcases h' with rfl | ⟨r'', hc, hr''⟩
  · exact h
  refine .inr ⟨r'', hc, fun r hr => ?_⟩
  rcases h with rfl | ⟨r', hb, hr'⟩
  · exact hr'' r hr
  · exact Int.lt_trans (hr' r hr) (hr'' r' hb)

/-- A version that has been passed stays passed. -/
theorem Newer.version_lt {o o' : Option Record} {v : Int} (h : Newer o o')
    (ho : ∃ r, o = some r ∧ v < r.version) : ∃ r, o' = some r ∧ v < r.version := by
  obtain ⟨r, hr, hv⟩ := ho
  rcases h with rfl | ⟨r', ho', hr'⟩
  · exact ⟨r, hr, hv⟩
  · exact ⟨r', ho', Int.lt_trans hv (hr' r hr)⟩

/-- A write that is let through makes the record newer. -/
theorem newer_of_permits {o : Option Record} {v : Int} {rec : Record} (h : permits o v = true) :
    Newer o (some { rec with version := v + 1 }) := by
  refine .inr ⟨_, rfl, fun r hr => ?_⟩
  by_cases hv : v = 0
  · subst hv
    rw [permits_zero h] at hr
    cases hr
  · obtain ⟨r', hr', hver⟩ := permits_version hv h
    rw [hr] at hr'
    cases hr'
    show r.version < v + 1
    omega

/-- A record that is still at the version read has not been touched. -/
theorem Newer.eq_of_permits {s : MemStore} {k : Key} {o' : Option Record} (hs : s.Filled)
    (h : Newer (s.lookup k) o')
    (hp : permits o' (((s.lookup k).map Record.version).getD 0) = true) : o' = s.lookup k := by
  rcases h with h | ⟨r', ho', hr'⟩
  · exact h
  cases hk : s.lookup k with
  | none =>
    rw [hk] at hp
    exact permits_zero hp
  | some r =>
    have hpos := (hs k r hk).2
    have hlt := hr' r hk
    rw [hk, Option.map_some, Option.getD_some] at hp
    obtain ⟨r'', hr'', hver⟩ := permits_version (by omega) hp
    rw [ho'] at hr''
    cases hr''
    omega

end MemStore

end Berth.Lease
