/-
Berth.Lease.K8sStoreTheorems — `K8sLeaseStore.put` is the store's
compare-and-swap.

The numeric bridge shows that a formatted version reads back
(`versionFromLease_stamp`). `Lands` is the one thing a step may do to the
server; the invariant `Ok` says that every Berth write took its object
from its expected version to the next one, and that no expected version
was used twice as long as none was the largest `int64`, which has no
next one (`Unwrapped`). The update loop is proved by induction on the attempts
left, carrying that every attempt so far lost to a write in its own
window. `put_is_compare_and_swap` collects the result for whole runs.
-/
import Berth.Interleave.PoolTheorems
import Berth.Lease.HistoryTheorems
import Berth.Lease.K8sServer

namespace Berth.Lease

/-! ## Versions read back -/

theorem versionFromLease_pos (l : LeaseObject) : 1 ≤ versionFromLease l := by
  unfold versionFromLease
  split
  · decide
  · split
    · decide
    · next h => omega

theorem lookup_stampAnnotations_version (m : StringMap) (rec : Record) (v : Int) :
    (stampAnnotations m rec v).lookup versionAnnotation = some (formatInt v) := by
  rw [stampAnnotations, AList.lookup_insert]

/-- Annotations Berth does not own survive a stamp. -/
theorem lookup_stampAnnotations_foreign {m : StringMap} {rec : Record} {v : Int} {a : String}
    (ha : a ∉ ownedAnnotations) : (stampAnnotations m rec v).lookup a = m.lookup a := by
  simp only [ownedAnnotations, List.mem_cons, List.not_mem_nil, or_false, not_or] at ha
  obtain ⟨h₁, h₂, h₃⟩ := ha
  rw [stampAnnotations, AList.lookup_insert_ne h₃, AList.lookup_insert_ne h₂,
    AList.lookup_insert_ne h₁]

theorem versionFromLease_stamp {l : LeaseObject} {m : StringMap} {rec : Record} {v : Int}
    (hl : l.annotations = stampAnnotations m rec v) (hv : 1 ≤ v) (hle : v ≤ maxInt64) :
    versionFromLease l = v := by
  rw [versionFromLease, hl, lookup_stampAnnotations_version, Option.getD_some,
    parseInt_formatInt (by omega) hle]
  exact if_neg (by omega)

theorem versionFromLease_le (l : LeaseObject) : versionFromLease l ≤ maxInt64 := by
  unfold versionFromLease
  split
  · decide
  rename_i v hv
  split
  · decide
  · exact parseInt_le hv

/-- The record a stamped object reads back as: an `int32` of whole
seconds, which a tombstone may lack, and whole microseconds. -/
def storedRecord (rec : Record) (version : Int) : Record :=
  { rec with
    ttl := if rec.holder = "" ∧ rec.ttl = 0 then 0 else toInt32 (rec.ttl.tdiv second) * second
    acquiredAt := microTime rec.acquiredAt
    renewedAt := microTime rec.renewedAt
    version := version }

theorem leaseDuration_getD (rec : Record) : (leaseDuration rec).getD 0 * second =
    if rec.holder = "" ∧ rec.ttl = 0 then 0 else toInt32 (rec.ttl.tdiv second) * second := by
  have hcond : (rec.tombstone && rec.ttl == 0) = true ↔ rec.holder = "" ∧ rec.ttl = 0 := by
    rw [Bool.and_eq_true, Record.tombstone_iff, beq_iff_eq]
  rw [leaseDuration]
  split
  · next h =>
    rw [if_pos (hcond.mp h)]
    rfl
  · next h => rw [if_neg (mt hcond.mpr h), Option.getD_some]

theorem recordFromLease_stamp {l : LeaseObject} {m : StringMap} {rec : Record} {v : Int}
    (hl : l.annotations = stampAnnotations m rec v) (hs : l.spec = specOf rec) (hv : 1 ≤ v)
    (hle : v ≤ maxInt64) : recordFromLease l = .ok (storedRecord rec v) := by
  have hns : l.annotations.lookup tenantNamespaceAnnotation = some rec.key.ns := by
    rw [hl, stampAnnotations, AList.lookup_insert_ne (by decide),
      AList.lookup_insert_ne (by decide), AList.lookup_insert]
  have hname : l.annotations.lookup leaseNameAnnotation = some rec.key.name := by
    rw [hl, stampAnnotations, AList.lookup_insert_ne (by decide), AList.lookup_insert]
  rw [recordFromLease, hns]
  dsimp only
  rw [hname]
  dsimp only
  rw [hs, versionFromLease_stamp hl hv hle, storedRecord, ← leaseDuration_getD]
  rfl

namespace K8s

open Berth.Interleave

/-! ## One write -/

/-- The metadata Berth does not own is the same in both objects. -/
def KeepsForeign (o o' : LeaseObject) : Prop :=
  (∀ k, k ≠ managedByLabel → o'.labels.lookup k = o.labels.lookup k) ∧
    ∀ a, a ∉ ownedAnnotations → o'.annotations.lookup a = o.annotations.lookup a

/-- The write stored `rec` over exactly version `v`: over nothing when
`v` is 0, and otherwise keeping all foreign metadata. -/
structure Replaces (v : Int) (rec : Record) (x : ObjectWrite) : Prop where
  before : (v = 0 ∧ x.before = none) ∨
    ∃ cur, x.before = some cur ∧ versionFromLease cur = v ∧ KeepsForeign cur x.after
  name : x.name = k8sLeaseName rec.key
  version : versionFromLease x.after = v + 1
  record : recordFromLease x.after = .ok (storedRecord rec (v + 1))

/-- A write is either a call's, and then stores what the call was asked
to if the version can be counted up, or foreign, and then keeps the
version. -/
def Fair (x : ObjectWrite) : Prop :=
  (∃ i v rec, x.tid = some i ∧ x.put = some (v, rec) ∧ (v ≠ maxInt64 → Replaces v rec x)) ∨
    (x.tid = none ∧ x.put = none ∧
      ∃ cur, x.before = some cur ∧ versionFromLease x.after = versionFromLease cur)

/-- The server went from `s` to `s'` by the write `x`. -/
structure Lands (x : ObjectWrite) (s s' : Server) : Prop where
  objects : s'.objects = s.objects.insert x.name x.after
  revision : s'.revision = s.revision + 1
  log : s'.log = x :: s.log
  before : x.before = s.objects.lookup x.name
  stamped : x.after.resourceVersion = s.revision + 1
  named : x.after.name = x.name
  fair : Fair x

/-- Two writes of calls to one object did not expect the same version. -/
def Apart (x y : ObjectWrite) : Prop :=
  ∀ v rec v' rec', x.put = some (v, rec) → y.put = some (v', rec') → x.name = y.name → v ≠ v'

instance : Std.Symm Apart where
  symm := by
    intro x y h v rec v' rec' hy hx hname heq
    exact h v' rec' v rec hx hy hname.symm heq.symm

/-- No call replaced a record of the largest version there is. -/
def Unwrapped (s : Server) : Prop := ∀ x ∈ s.log, ∀ v rec, x.put = some (v, rec) → v ≠ maxInt64

/-- The invariant of the server. -/
structure Ok (s : Server) : Prop where
  named : ∀ name o, s.objects.lookup name = some o → o.name = name
  bounded : ∀ name o, s.objects.lookup name = some o → o.resourceVersion ≤ s.revision
  fair : ∀ x ∈ s.log, Fair x
  spent : Unwrapped s → ∀ x ∈ s.log, ∀ v rec, x.put = some (v, rec) →
    ∃ o, s.objects.lookup x.name = some o ∧ v < versionFromLease o
  once : Unwrapped s → s.log.Pairwise Apart

variable {s s' s'' : Server} {x : ObjectWrite} {i : Nat} {l : Loc} {ns : String}
variable {v : Int} {rec : Record}

/-- The write of a call stored what the call was asked to. -/
theorem Lands.replaces (h : Lands x s s') (hs' : Unwrapped s') (hput : x.put = some (v, rec)) :
    Replaces v rec x := by
  have hne : v ≠ maxInt64 := hs' x (h.log ▸ List.mem_cons_self) v rec hput
  rcases h.fair with ⟨i, v', rec', _, hput', hrep⟩ | ⟨_, hnone, _⟩
  · rw [hput, Option.some.injEq, Prod.mk.injEq] at hput'
    obtain ⟨rfl, rfl⟩ := hput'
    exact hrep hne
  · rw [hput] at hnone
    cases hnone

theorem Lands.unwrapped (h : Lands x s s') (hs' : Unwrapped s') : Unwrapped s :=
  fun y hy => hs' y (h.log ▸ List.mem_cons_of_mem x hy)

/-- No write lowers the version of its object. -/
theorem Lands.version_le (h : Lands x s s') (hs' : Unwrapped s') {o : LeaseObject}
    (ho : s.objects.lookup x.name = some o) : versionFromLease o ≤ versionFromLease x.after := by
  rcases h.fair with ⟨i, v, rec, _, hput, -⟩ | ⟨_, _, cur, hcur, heq⟩
  · have hrep := h.replaces hs' hput
    rcases hrep.before with ⟨_, hnone⟩ | ⟨cur, hcur, hv, _⟩
    · rw [h.before, ho] at hnone
      cases hnone
    rw [h.before, ho, Option.some.injEq] at hcur
    subst hcur
    have := hrep.version
    omega
  · rw [h.before, ho, Option.some.injEq] at hcur
    subst hcur
    omega

theorem Lands.ok (h : Lands x s s') (hs : Ok s) : Ok s' where
  named := by
    intro name o ho
    rw [h.objects] at ho
    by_cases hname : name = x.name
    · subst hname
      rw [AList.lookup_insert, Option.some.injEq] at ho
      rw [← ho, h.named]
    · rw [AList.lookup_insert_ne hname] at ho
      exact hs.named name o ho
  bounded := by
    intro name o ho
    rw [h.objects] at ho
    rw [h.revision]
    by_cases hname : name = x.name
    · subst hname
      rw [AList.lookup_insert, Option.some.injEq] at ho
      rw [← ho, h.stamped]
    · rw [AList.lookup_insert_ne hname] at ho
      have := hs.bounded name o ho
      omega
  fair := by
    intro y hy
    rw [h.log] at hy
    rcases List.mem_cons.mp hy with rfl | hy
    · exact h.fair
    · exact hs.fair y hy
  spent := by
    intro hs' y hy v rec hput
    rw [h.log] at hy
    rw [h.objects]
    rcases List.mem_cons.mp hy with rfl | hy
    · refine ⟨y.after, AList.lookup_insert _, ?_⟩
      have := (h.replaces hs' hput).version
      omega
    · obtain ⟨o, ho, hlt⟩ := hs.spent (h.unwrapped hs') y hy v rec hput
      by_cases hname : y.name = x.name
      · rw [hname] at ho ⊢
        exact ⟨x.after, AList.lookup_insert _, Int.lt_of_lt_of_le hlt (h.version_le hs' ho)⟩
      · exact ⟨o, by rw [AList.lookup_insert_ne hname]; exact ho, hlt⟩
  once := by
    intro hs'
    rw [h.log, List.pairwise_cons]
    refine ⟨?_, hs.once (h.unwrapped hs')⟩
    intro y hy v rec v' rec' hput hput' hname
    -- the older write used up its version before `x` read the object
    obtain ⟨o, ho, hlt⟩ := hs.spent (h.unwrapped hs') y hy v' rec' hput'
    rcases (h.replaces hs' hput).before with ⟨_, hnone⟩ | ⟨cur, hcur, hv, _⟩
    · rw [h.before, hname, ho] at hnone
      cases hnone
    · rw [h.before, hname, ho, Option.some.injEq] at hcur
      subst hcur
      omega

/-- What happens around call `i`: the log grows by writes of others, and
an object that is there stays, unchanged or written since. -/
def Around (i : Nat) (s s' : Server) : Prop :=
  ∃ new, s'.log = new ++ s.log ∧ (∀ x ∈ new, x.tid ≠ some i) ∧
    ∀ name o, s.objects.lookup name = some o →
      s'.objects.lookup name = some o ∨
        ∃ o', s'.objects.lookup name = some o' ∧ o.resourceVersion < o'.resourceVersion ∧
          ∃ x ∈ new, x.name = name

theorem Around.refl (i : Nat) (s : Server) : Around i s s :=
  ⟨[], rfl, (fun _ hx => nomatch hx), fun _ _ ho => .inl ho⟩

theorem Around.trans (h : Around i s s') (h' : Around i s' s'') : Around i s s'' := by
  obtain ⟨new, hlog, htid, hobj⟩ := h
  obtain ⟨new', hlog', htid', hobj'⟩ := h'
  refine ⟨new' ++ new, by rw [hlog', hlog, List.append_assoc], ?_, ?_⟩
  · intro x hx
    rcases List.mem_append.mp hx with hx | hx
    · exact htid' x hx
    · exact htid x hx
  · intro name o ho
    rcases hobj name o ho with ho' | ⟨o', ho', hlt, x, hx, hxn⟩
    · rcases hobj' name o ho' with ho'' | ⟨o'', ho'', hlt', x, hx, hxn⟩
      · exact .inl ho''
      · exact .inr ⟨o'', ho'', hlt', x, List.mem_append_left _ hx, hxn⟩
    · rcases hobj' name o' ho' with ho'' | ⟨o'', ho'', hlt', _⟩
      · exact .inr ⟨o', ho'', hlt, x, List.mem_append_right _ hx, hxn⟩
      · exact .inr ⟨o'', ho'', Nat.lt_trans hlt hlt', x, List.mem_append_right _ hx, hxn⟩

theorem Lands.around (h : Lands x s s') (hs : Ok s) (htid : x.tid ≠ some i) :
    Around i s s' := by
  refine ⟨[x], h.log, ?_, ?_⟩
  · intro y hy
    rw [List.mem_singleton.mp hy]
    exact htid
  · intro name o ho
    by_cases hname : name = x.name
    · subst hname
      refine .inr ⟨x.after, by rw [h.objects, AList.lookup_insert], ?_, x, List.mem_cons_self, rfl⟩
      rw [h.stamped]
      have := hs.bounded _ o ho
      omega
    · exact .inl (by rw [h.objects, AList.lookup_insert_ne hname]; exact ho)

theorem foreignWrite_lands {f : ForeignWrite} (h : foreignWrite f s = some s') (hs : Ok s) :
    ∃ x, Lands x s s' ∧ x.tid = none := by
  unfold foreignWrite at h
  split at h
  · cases h
  rename_i o ho
  split at h
  · next hres =>
    have hname := hs.named _ _ ho
    have hver : f.annotations.lookup versionAnnotation =
        o.annotations.lookup versionAnnotation := by
      simp only [ForeignWrite.respects, Bool.and_eq_true, List.all_eq_true, beq_iff_eq] at hres
      exact hres.2 versionAnnotation (by simp [ownedAnnotations])
    cases h
    refine ⟨_, ⟨rfl, rfl, rfl, rfl, rfl, rfl, .inr ⟨rfl, rfl, o, ?_, ?_⟩⟩, rfl⟩
    · show s.objects.lookup o.name = some o
      rw [hname, ho]
    · simp only [versionFromLease, hver]
  · cases h

/-- Call `i` has written nothing. -/
def Silent (i : Nat) (s : Server) : Prop := ∀ x ∈ s.log, x.tid ≠ some i

theorem Silent.around (h : Silent i s) (ha : Around i s s') : Silent i s' := by
  obtain ⟨new, hlog, htid, _⟩ := ha
  intro x hx
  rw [hlog] at hx
  rcases List.mem_append.mp hx with hx | hx
  · exact htid x hx
  · exact h x hx

/-- The discipline of the store's calls. -/
def discipline (ns : String) : Discipline (machine ns) where
  adm := fun _ => True
  inv := Ok
  unborn := Silent
  guar := fun i _ s s' => s' = s ∨ ∃ x, Lands x s s' ∧ x.tid = some i
  interf := fun i _ s s' => Around i s s'
  refl := fun i _ s => Around.refl i s
  trans := fun h h' => h.trans h'
  guar_inv := by
    intro i l s s' hs _ hg
    rcases hg with rfl | ⟨x, hx, _⟩
    · exact hs
    · exact hx.ok hs
  guar_interf := by
    intro i j l l' s s' hij hs _ hg
    rcases hg with rfl | ⟨x, hx, htid⟩
    · exact Around.refl j _
    refine hx.around hs ?_
    rw [htid]
    intro heq
    exact hij (Option.some.inj heq)
  env_inv := by
    intro e s s' hs _ he
    obtain ⟨x, hx, _⟩ := foreignWrite_lands he hs
    exact hx.ok hs
  env_interf := by
    intro e j l s s' hs _ he
    obtain ⟨x, hx, htid⟩ := foreignWrite_lands he hs
    refine hx.around hs ?_
    rw [htid]
    intro heq
    cases heq
  start_inv := by
    intro n c l s s' hs _ hst
    cases hst
    exact hs
  start_interf := by
    intro n c l j l' s s' _ hs _ hst
    cases hst
    exact Around.refl j _
  unborn_interf := fun h hs => hs.around (h { call := .list, readAt := 0, reads := [], attempts := [] })

/-! ## What each request can do -/

theorem exec_get {ch : Choice} {name : String} {r : Except ApiError LeaseObject} {l' : Loc}
    (h : exec i ch (.get name) l s = some (r, l', s')) :
    s' = s ∧ ((∃ msg, r = .error (.other msg) ∧ l' = l) ∨
      (s.objects.lookup name = none ∧ r = .error .notFound ∧ l' = l.read s none) ∨
      (∃ o, s.objects.lookup name = some o ∧ r = .ok o ∧ l' = l.read s (some o))) := by
  cases ch with
  | answer =>
    simp only [exec] at h
    split at h
    · next hnone =>
      cases h
      exact ⟨rfl, .inr (.inl ⟨hnone, rfl, rfl⟩)⟩
    · next o ho =>
      cases h
      exact ⟨rfl, .inr (.inr ⟨o, ho, rfl, rfl⟩)⟩
  | fault msg =>
    cases h
    exact ⟨rfl, .inl ⟨msg, rfl, rfl⟩⟩
  | _ => cases h

theorem exec_ctxErr {ch : Choice} {r : Option Err} {l' : Loc}
    (h : exec i ch .ctxErr l s = some (r, l', s')) : s' = s ∧ l' = l := by
  cases ch with
  | ctx err =>
    cases h
    exact ⟨rfl, rfl⟩
  | _ => cases h

theorem exec_list {ch : Choice} {label value : String}
    {r : Except ApiError (List LeaseObject)} {l' : Loc}
    (h : exec i ch (.list label value) l s = some (r, l', s')) : s' = s ∧ l' = l := by
  cases ch with
  | order items =>
    simp only [exec] at h
    split at h
    · cases h
      exact ⟨rfl, rfl⟩
    · cases h
  | fault msg =>
    cases h
    exact ⟨rfl, rfl⟩
  | _ => cases h

/-- A create finds the name free and writes, finds it taken, or fails. -/
theorem exec_create {ch : Choice} {o : LeaseObject} {r : Except ApiError Unit} {l' : Loc}
    (h : exec i ch (.create o) l s = some (r, l', s')) :
    (∃ msg, r = .error (.other msg) ∧
      (s' = s ∨ s.objects.lookup o.name = none ∧ s' = s.write (some i) (putOf l.call) o)) ∨
    (∃ cur, s.objects.lookup o.name = some cur ∧ r = .error .alreadyExists ∧
      l' = l.read s (some cur) ∧ s' = s) ∨
    (s.objects.lookup o.name = none ∧ r = .ok () ∧
      s' = s.write (some i) (putOf l.call) o) := by
  cases hlook : s.objects.lookup o.name with
  | none =>
    cases ch with
    | answer =>
      simp only [exec, Server.create, hlook] at h
      cases h
      exact .inr (.inr ⟨rfl, rfl, rfl⟩)
    | fault msg =>
      cases h
      exact .inl ⟨msg, rfl, .inl rfl⟩
    | late msg =>
      simp only [exec, Server.create, hlook] at h
      cases h
      exact .inl ⟨msg, rfl, .inr ⟨rfl, rfl⟩⟩
    | _ => cases h
  | some cur =>
    cases ch with
    | answer =>
      simp only [exec, Server.create, hlook] at h
      cases h
      exact .inr (.inl ⟨cur, rfl, rfl, rfl, rfl⟩)
    | fault msg =>
      cases h
      exact .inl ⟨msg, rfl, .inl rfl⟩
    | late msg =>
      simp only [exec, Server.create, hlook] at h
      cases h
      exact .inl ⟨msg, rfl, .inl rfl⟩
    | _ => cases h

/-- An update finds its resource version stored and writes, finds
another one, finds nothing, or fails. -/
theorem exec_update {ch : Choice} {o : LeaseObject} {r : Except ApiError Unit} {l' : Loc}
    (h : exec i ch (.update o) l s = some (r, l', s')) :
    l' = l.tried s ∧
    ((∃ cur, s.objects.lookup o.name = some cur ∧
        cur.resourceVersion = o.resourceVersion ∧
        (r = .ok () ∨ ∃ msg, r = .error (.other msg)) ∧
        s' = s.write (some i) (putOf l.call) o) ∨
      (∃ cur, s.objects.lookup o.name = some cur ∧
        cur.resourceVersion ≠ o.resourceVersion ∧ r = .error .conflict ∧ s' = s) ∨
      ((r = .error .notFound ∨ ∃ msg, r = .error (.other msg)) ∧ s' = s)) := by
  cases hlook : s.objects.lookup o.name with
  | none =>
    cases ch with
    | answer =>
      simp only [exec, Server.update, hlook] at h
      cases h
      exact ⟨rfl, .inr (.inr ⟨.inl rfl, rfl⟩)⟩
    | fault msg =>
      cases h
      exact ⟨rfl, .inr (.inr ⟨.inr ⟨msg, rfl⟩, rfl⟩)⟩
    | late msg =>
      simp only [exec, Server.update, hlook] at h
      cases h
      exact ⟨rfl, .inr (.inr ⟨.inr ⟨msg, rfl⟩, rfl⟩)⟩
    | _ => cases h
  | some cur =>
    by_cases hrv : cur.resourceVersion = o.resourceVersion
    · cases ch with
      | answer =>
        simp only [exec, Server.update, hlook, if_pos hrv] at h
        cases h
        exact ⟨rfl, .inl ⟨cur, rfl, hrv, .inl rfl, rfl⟩⟩
      | fault msg =>
        cases h
        exact ⟨rfl, .inr (.inr ⟨.inr ⟨msg, rfl⟩, rfl⟩)⟩
      | late msg =>
        simp only [exec, Server.update, hlook, if_pos hrv] at h
        cases h
        exact ⟨rfl, .inl ⟨cur, rfl, hrv, .inr ⟨msg, rfl⟩, rfl⟩⟩
      | _ => cases h
    · cases ch with
      | answer =>
        simp only [exec, Server.update, hlook, if_neg hrv] at h
        cases h
        exact ⟨rfl, .inr (.inl ⟨cur, rfl, hrv, rfl, rfl⟩)⟩
      | fault msg =>
        cases h
        exact ⟨rfl, .inr (.inr ⟨.inr ⟨msg, rfl⟩, rfl⟩)⟩
      | late msg =>
        simp only [exec, Server.update, hlook, if_neg hrv] at h
        cases h
        exact ⟨rfl, .inr (.inr ⟨.inr ⟨msg, rfl⟩, rfl⟩)⟩
      | _ => cases h

/-! ## Put -/

/-- Between the read and the update of this attempt somebody wrote the
object. -/
def AttemptLost (s : Server) (name : String) (ab : Nat × Nat) : Prop :=
  ∃ n x, ab.1 ≤ n ∧ n < ab.2 ∧ IsWrite s.log n x ∧ x.name = name

/-- What a Put with this expectation must find. -/
def expectedState (v : Int) : Option Int := if v = 0 then none else some v

structure PutPost (i : Nat) (v : Int) (rec : Record) (a : Except Err Unit) (l : Loc)
    (s : Server) : Prop where
  ok : a = .ok () → ∃ x ∈ s.log, x.tid = some i ∧ x.put = some (v, rec)
  conflict : a = .error errConflict → Silent i s ∧
    ((∃ r ∈ l.reads, r ≠ expectedState v) ∨
      (l.attempts.length = K8sLeaseStore.maxPutUpdateAttempts ∧
        ∀ ab ∈ l.attempts, AttemptLost s (k8sLeaseName rec.key) ab))

theorem Around.suffix (h : Around i s s') : s.log <:+ s'.log := by
  obtain ⟨new, hlog, _⟩ := h
  exact ⟨new, hlog.symm⟩

theorem AttemptLost.around {name : String} {ab : Nat × Nat} (h : AttemptLost s name ab)
    (ha : Around i s s') : AttemptLost s' name ab := by
  obtain ⟨n, x, hlo, hhi, ⟨ws₀, hws, hlen⟩, hname⟩ := h
  exact ⟨n, x, hlo, hhi, ⟨ws₀, hws.trans ha.suffix, hlen⟩, hname⟩

theorem PutPost.around {a : Except Err Unit} (h : PutPost i v rec a l s) (ha : Around i s s') :
    PutPost i v rec a l s' where
  ok := by
    intro heq
    obtain ⟨x, hx, hrest⟩ := h.ok heq
    exact ⟨x, ha.suffix.subset hx, hrest⟩
  conflict := by
    intro heq
    obtain ⟨hsilent, hwhy⟩ := h.conflict heq
    refine ⟨hsilent.around ha, ?_⟩
    rcases hwhy with hread | ⟨hlen, hlost⟩
    · exact .inl hread
    · exact .inr ⟨hlen, fun ab hab => (hlost ab hab).around ha⟩

/-- Returning keeps whatever holds now. -/
theorem robust_ret {a : Except Err Unit} (h : PutPost i v rec a l s) :
    Robust (discipline ns) i (.ret a) (PutPost i v rec) l s :=
  fun _ ha _ => h.around ha

/-- An answer that is neither success nor `ErrConflict` says nothing. -/
theorem putPost_wrap {msg : String} {e : Err} :
    PutPost i v rec (.error (.wrap msg e)) l s where
  ok := fun heq => nomatch heq
  conflict := fun heq => nomatch heq

theorem putPost_ok (hx : x ∈ s.log) (htid : x.tid = some i) (hput : x.put = some (v, rec)) :
    PutPost i v rec (.ok ()) l s where
  ok := fun _ => ⟨x, hx, htid, hput⟩
  conflict := fun heq => nomatch heq

theorem putPost_conflict (hsilent : Silent i s) (hwhy : (∃ r ∈ l.reads, r ≠ expectedState v) ∨
      (l.attempts.length = K8sLeaseStore.maxPutUpdateAttempts ∧
        ∀ ab ∈ l.attempts, AttemptLost s (k8sLeaseName rec.key) ab)) :
    PutPost i v rec (.error errConflict) l s where
  ok := fun heq => nomatch heq
  conflict := fun _ => ⟨hsilent, hwhy⟩

/-- A planned update that goes through stored `rec` over exactly what was
read. -/
theorem update_lands {cur : LeaseObject} (hs : Ok s) (hcall : l.call = .put v rec)
    (hcur : s.objects.lookup (k8sLeaseName rec.key) = some cur) (hv : versionFromLease cur = v) :
    ∃ x, Lands x s (s.write (some i) (putOf l.call)
        (applyRecordToLease cur rec (toInt64 (v + 1)))) ∧
      x.tid = some i ∧ x.put = some (v, rec) := by
  have hname : cur.name = k8sLeaseName rec.key := hs.named _ _ hcur
  have hpos := versionFromLease_pos cur
  have hle := versionFromLease_le cur
  have hnext : v ≠ maxInt64 → toInt64 (v + 1) = v + 1 ∧ v + 1 ≤ maxInt64 := by
    unfold maxInt64 toInt64 at *
    omega
  refine ⟨_, ⟨rfl, rfl, rfl, rfl, rfl, rfl, .inl ⟨i, v, rec, rfl, ?_, ?_⟩⟩, rfl, ?_⟩
  · show putOf l.call = some (v, rec)
    rw [hcall]
    rfl
  · intro hne
    obtain ⟨hwrap, hfits⟩ := hnext hne
    rw [hwrap]
    refine ⟨.inr ⟨cur, ?_, hv, ?_, ?_⟩, hname, ?_, ?_⟩
    · show s.objects.lookup cur.name = some cur
      rw [hname, hcur]
    · intro k hk
      show (cur.labels.insert managedByLabel managedByValue).lookup k = cur.labels.lookup k
      exact AList.lookup_insert_ne hk
    · intro a ha
      exact lookup_stampAnnotations_foreign ha
    · exact versionFromLease_stamp (show _ = stampAnnotations cur.annotations rec (v + 1) from rfl)
        (by omega) hfits
    · exact recordFromLease_stamp (m := cur.annotations) rfl rfl (by omega) hfits
  · show putOf l.call = some (v, rec)
    rw [hcall]
    rfl

/-- The same for a create of a free name. -/
theorem create_lands (hcall : l.call = .put 0 rec)
    (hnone : s.objects.lookup (k8sLeaseName rec.key) = none) :
    ∃ x, Lands x s (s.write (some i) (putOf l.call) (leaseFromRecord rec ns 1)) ∧
      x.tid = some i ∧ x.put = some (0, rec) := by
  refine ⟨_, ⟨rfl, rfl, rfl, rfl, rfl, rfl, .inl ⟨i, 0, rec, rfl, ?_, ?_⟩⟩, rfl, ?_⟩
  · show putOf l.call = some (0, rec)
    rw [hcall]
    rfl
  · refine fun _ => ⟨.inl ⟨rfl, hnone⟩, rfl, ?_, ?_⟩
    · exact versionFromLease_stamp (show _ = stampAnnotations ∅ rec 1 from rfl) (by decide)
        (by decide)
    · exact recordFromLease_stamp (m := ∅) rfl rfl (by decide) (by decide)
  · show putOf l.call = some (0, rec)
    rw [hcall]
    rfl

/-- A write that landed in between makes an attempt lose. -/
theorem attemptLost_of_mem {new : List ObjectWrite} {name : String} {a : Nat}
    (hlog : s'.log = new ++ s.log) (ha : a = s.log.length) (hx : x ∈ new)
    (hname : x.name = name) : AttemptLost s' name (a, s'.log.length) := by
  obtain ⟨pre, post, rfl⟩ := List.append_of_mem hx
  refine ⟨(post ++ s.log).length, x, ?_, ?_, ⟨post ++ s.log, ?_, rfl⟩, hname⟩
  · rw [ha, List.length_append]
    exact Nat.le_add_left _ _
  · rw [hlog]
    simp only [List.length_append, List.length_cons]
    omega
  · rw [hlog, List.append_assoc]
    exact List.suffix_append pre _

section Rules

variable {α : Type} {Q : α → Loc → Server → Prop}

theorem robust_ctxErr {cont : Option Err → Prog K8sSig α}
    (h : ∀ s' err, Around i s s' → Ok s' → Robust (discipline ns) i (cont err) Q l s') :
    Robust (discipline ns) i (Leases.ctxErr.bind cont) Q l s := by
  intro s' ha hs ch r l' s'' hex _
  obtain ⟨rfl, rfl⟩ := exec_ctxErr (show exec i ch .ctxErr l s' = some (r, l', s'') from hex)
  exact ⟨.inl rfl, h s'' r ha hs⟩

theorem robust_get {name : String} {cont : Except ApiError LeaseObject → Prog K8sSig α}
    (hfault : ∀ s' msg, Around i s s' → Ok s' →
      Robust (discipline ns) i (cont (.error (.other msg))) Q l s')
    (hnone : ∀ s', Around i s s' → Ok s' → s'.objects.lookup name = none →
      Robust (discipline ns) i (cont (.error .notFound)) Q (l.read s' none) s')
    (hsome : ∀ s' cur, Around i s s' → Ok s' → s'.objects.lookup name = some cur →
      Robust (discipline ns) i (cont (.ok cur)) Q (l.read s' (some cur)) s') :
    Robust (discipline ns) i ((Leases.get name).bind cont) Q l s := by
  intro s' ha hs ch r l' s'' hex _
  obtain ⟨rfl, hread⟩ := exec_get (show exec i ch (.get name) l s' = some (r, l', s'') from hex)
  refine ⟨.inl rfl, ?_⟩
  rcases hread with ⟨msg, rfl, rfl⟩ | ⟨hno, rfl, rfl⟩ | ⟨cur, hcur, rfl, rfl⟩
  · exact hfault s'' msg ha hs
  · exact hnone s'' ha hs hno
  · exact hsome s'' cur ha hs hcur

theorem robust_list {label value : String}
    {cont : Except ApiError (List LeaseObject) → Prog K8sSig α}
    (h : ∀ s' r, Around i s s' → Ok s' → Robust (discipline ns) i (cont r) Q l s') :
    Robust (discipline ns) i ((Leases.list label value).bind cont) Q l s := by
  intro s' ha hs ch r l' s'' hex _
  obtain ⟨rfl, rfl⟩ :=
    exec_list (show exec i ch (.list label value) l s' = some (r, l', s'') from hex)
  exact ⟨.inl rfl, h s'' r ha hs⟩

/-- The update of a Put that read `cur` at its expected version in the
state `s`. -/
theorem robust_update {cur : LeaseObject} {cont : Except ApiError Unit → Prog K8sSig α} (hs : Ok s)
    (hcall : l.call = .put v rec) (hcur : s.objects.lookup (k8sLeaseName rec.key) = some cur)
    (hver : versionFromLease cur = v)
    (hok : ∀ s' x, x ∈ s'.log → x.tid = some i → x.put = some (v, rec) →
      ∀ l', Robust (discipline ns) i (cont (.ok ())) Q l' s') (hconf : ∀ s', Around i s s' → Ok s' →
      AttemptLost s' (k8sLeaseName rec.key) (s.log.length, s'.log.length) →
      Robust (discipline ns) i (cont (.error .conflict)) Q (l.tried s') s')
    (hother : ∀ s' e, e ≠ .conflict → ∀ l', Robust (discipline ns) i (cont (.error e)) Q l' s') :
    Robust (discipline ns) i
      ((Leases.update (applyRecordToLease cur rec (toInt64 (v + 1)))).bind cont) Q l s := by
  intro s' ha hs' ch r l' s'' hex _
  obtain ⟨new, hlog, htid, hobj⟩ := id ha
  have hname : (applyRecordToLease cur rec (toInt64 (v + 1))).name = k8sLeaseName rec.key := by
    show cur.name = k8sLeaseName rec.key
    exact hs.named _ _ hcur
  obtain ⟨rfl, hupd⟩ := exec_update
    (show exec i ch (.update _) l s' = some (r, l', s'') from hex)
  rw [hname] at hupd
  rcases hupd with ⟨o, ho, hrv, hr, rfl⟩ | ⟨o, ho, hrv, rfl, rfl⟩ | ⟨hr, rfl⟩
  · -- same resource version: nobody wrote since the read
    have hsame : cur = o := by
      rcases hobj _ cur hcur with h | ⟨o', ho', hlt, _⟩
      · rw [ho, Option.some.injEq] at h
        exact h.symm
      rw [ho, Option.some.injEq] at ho'
      subst ho'
      have hrv' : o.resourceVersion = cur.resourceVersion := hrv
      omega
    subst hsame
    obtain ⟨x, hx, htx, hput⟩ := update_lands (i := i) hs' hcall ho hver
    refine ⟨.inr ⟨x, hx, htx⟩, ?_⟩
    rcases hr with rfl | ⟨msg, rfl⟩
    · refine hok _ x ?_ htx hput _
      have hlog' := hx.log
      exact hlog' ▸ List.mem_cons_self
    · exact hother _ (.other msg) (by simp) _
  · -- another resource version: somebody wrote since the read
    have hwrote : ∃ x ∈ new, x.name = k8sLeaseName rec.key := by
      rcases hobj _ cur hcur with h | ⟨_, _, _, hx⟩
      · rw [ho, Option.some.injEq] at h
        subst h
        exact absurd rfl hrv
      · exact hx
    obtain ⟨x, hx, hxn⟩ := hwrote
    exact ⟨.inl rfl, hconf s'' ha hs' (attemptLost_of_mem hlog rfl hx hxn)⟩
  · refine ⟨.inl rfl, ?_⟩
    rcases hr with rfl | ⟨msg, rfl⟩
    · exact hother _ .notFound (by decide) _
    · exact hother _ (.other msg) (by simp) _

end Rules

theorem robust_putLoop (n : Nat) (hv : v ≠ 0) (hcall : l.call = .put v rec) (hsilent : Silent i s)
    (hlost : ∀ ab ∈ l.attempts, AttemptLost s (k8sLeaseName rec.key) ab)
    (hcount : l.attempts.length + n = K8sLeaseStore.maxPutUpdateAttempts) :
    Robust (discipline ns) i (K8sLeaseStore.putLoop v rec n) (PutPost i v rec) l s := by
  induction n generalizing l s with
  | zero => exact robust_ret (putPost_conflict hsilent (.inr ⟨by omega, hlost⟩))
  | succ n ih =>
    refine robust_ctxErr fun s₁ err ha₁ hok₁ => ?_
    cases err with
    | some err => exact robust_ret putPost_wrap
    | none =>
      have hsilent₁ := hsilent.around ha₁
      refine robust_get ?_ ?_ ?_
      · intro s₂ msg ha₂ hok₂
        exact robust_ret putPost_wrap
      · -- the object is absent
        intro s₂ ha₂ hok₂ hnone
        refine robust_ret (putPost_conflict (hsilent₁.around ha₂)
          (.inl ⟨none, List.mem_cons_self, ?_⟩))
        simp [expectedState, hv]
      · intro s₂ cur ha₂ hok₂ hcur
        have hsilent₂ := hsilent₁.around ha₂
        dsimp only
        split
        · next hver =>
          refine robust_ret (putPost_conflict hsilent₂ (.inl ⟨_, List.mem_cons_self, ?_⟩))
          simpa [expectedState, hv] using hver
        · next hver =>
          refine robust_update hok₂ hcall hcur (Decidable.not_not.mp hver) ?_ ?_ ?_
          · intro s₃ x hx htid hput l'
            exact robust_ret (putPost_ok hx htid hput)
          · intro s₃ ha₃ hok₃ hthis
            refine ih hcall (hsilent₂.around ha₃) ?_ ?_
            · intro ab hab
              rcases List.mem_cons.mp hab with rfl | hab
              · exact hthis
              · exact (((hlost ab hab).around ha₁).around ha₂).around ha₃
            · show (l.attempts.length + 1) + n = _
              omega
          · intro s₃ e he l'
            cases e with
            | conflict => exact absurd rfl he
            | _ => exact robust_ret putPost_wrap

theorem robust_put (hcall : l.call = .put v rec) (hfresh : l.attempts = []) (hsilent : Silent i s) :
    Robust (discipline ns) i (K8sLeaseStore.put ns v rec) (PutPost i v rec) l s := by
  unfold K8sLeaseStore.put
  split
  · next hv =>
    subst hv
    intro s₁ ha₁ hok₁ ch r l₁ s₁' hex _
    have hname : (leaseFromRecord rec ns 1).name = k8sLeaseName rec.key := rfl
    have hcases := exec_create (show exec i ch (.create _) l s₁ = some (r, l₁, s₁') from hex)
    rw [hname] at hcases
    rcases hcases with ⟨msg, rfl, rfl | ⟨hnone, rfl⟩⟩ | ⟨cur, hcur, rfl, rfl, rfl⟩ |
      ⟨hnone, rfl, rfl⟩
    · exact ⟨.inl rfl, robust_ret putPost_wrap⟩
    · obtain ⟨x, hx, htx, _⟩ := create_lands hcall hnone
      exact ⟨.inr ⟨x, hx, htx⟩, robust_ret putPost_wrap⟩
    · refine ⟨.inl rfl, robust_ret (putPost_conflict (hsilent.around ha₁)
        (.inl ⟨_, List.mem_cons_self, ?_⟩))⟩
      simp [expectedState]
    · obtain ⟨x, hx, htx, hput⟩ := create_lands hcall hnone
      have hlog := hx.log
      exact ⟨.inr ⟨x, hx, htx⟩, robust_ret (putPost_ok (hlog ▸ List.mem_cons_self) htx hput)⟩
  · next hv =>
    refine robust_putLoop _ hv hcall hsilent ?_ ?_
    · rw [hfresh]
      intro ab hab
      cases hab
    · rw [hfresh]
      rfl

/-! ## Whole runs -/

/-- What a call's result says; only Put's matters here. -/
def CallPost (i : Nat) (c : StoreCall) (out : StoreOutcome) (l : Loc) (s : Server) : Prop :=
  ∀ v rec a, c = .put v rec → out = .done a → PutPost i v rec a l s

theorem robust_storeGet (key : Key) :
    Robust (discipline ns) i (K8sLeaseStore.get key) (fun _ _ _ => True) l s := by
  refine robust_get ?_ ?_ ?_
  · intro s' msg _ _
    exact fun _ _ _ => trivial
  · intro s' _ _ _
    exact fun _ _ _ => trivial
  · intro s' cur _ _ _
    exact fun _ _ _ => trivial

theorem robust_storeList :
    Robust (discipline ns) i K8sLeaseStore.list (fun _ _ _ => True) l s := by
  refine robust_list fun s' r _ _ => ?_
  cases r with
  | error e => exact fun _ _ _ => trivial
  | ok items => exact fun _ _ _ => trivial

/-- Every program of the store is robust when it starts. -/
theorem robust_prog (c : StoreCall) (hcall : l.call = c) (hfresh : l.attempts = [])
    (hsilent : Silent i s) : Robust (discipline ns) i (prog ns c) (CallPost i c) l s := by
  cases c with
  | get key =>
    refine Robust.bind ((robust_storeGet key).mono ?_)
    intro a l' s' _ _ s'' _ _ v rec a' hc
    cases hc
  | list =>
    refine Robust.bind (robust_storeList.mono ?_)
    intro a l' s' _ _ s'' _ _ v rec a' hc
    cases hc
  | put v rec =>
    refine Robust.bind ((robust_put hcall hfresh hsilent).mono ?_)
    intro a l' s' _ hpost s'' ha _ v' rec' a' hc hout
    cases hc
    cases hout
    exact hpost.around ha

variable {init : Initial} {p : Pool (machine ns)}

/-- After any interleaving of calls and foreign writes the invariant
holds and every returned call satisfies its postcondition. -/
theorem store_ok (h : (Pool.empty init.server : Pool (machine ns)).Reaches p) :
    PoolOk (discipline ns) CallPost p := by
  have hinit : Ok init.server :=
    { named := init.named
      bounded := init.bounded
      fair := fun x hx => nomatch hx
      spent := fun _ x hx => nomatch hx
      once := fun _ => List.Pairwise.nil }
  refine PoolOk.reaches ?_ ?_ (PoolOk.empty hinit fun n x hx => nomatch hx) h trivial
  · intro n c s l s' _ hsilent _ hs
    cases hs
    exact robust_prog c rfl rfl hsilent
  · intro a b _ _
    trivial

/-- Call number `i` is `Put(v, rec)` and returned `a`; `l` is its
bookkeeping. -/
def Returned (p : Pool (machine ns)) (i : Nat) (v : Int) (rec : Record) (a : Except Err Unit)
    (l : Loc) : Prop :=
  ∃ t : Thread (machine ns), p.threads[i]? = some t ∧ t.call = .put v rec ∧ t.loc = l ∧
    t.prog.result? = some (.done a)

/-- `Put` is a compare-and-swap on the version. In every run: one version
lets at most one Put of a key succeed, if no write took a version past
the largest `int64`; a Put that succeeded replaced a record of exactly
that version (or none, when creating) by its own at the next version, if
there is one, and kept all foreign metadata; and a Put that reports
`ErrConflict` wrote nothing and either saw another version than expected
or lost each of its attempts to a write between its read and its
update. -/
theorem put_is_compare_and_swap
    (h : (Pool.empty init.server : Pool (machine ns)).Reaches p) :
    (Unwrapped p.shared → ∀ i j v rec rec' l l', Returned p i v rec (.ok ()) l →
      Returned p j v rec' (.ok ()) l' → rec.key = rec'.key → i = j) ∧
    (∀ i v rec l, v ≠ maxInt64 → Returned p i v rec (.ok ()) l →
      ∃ x ∈ p.shared.log, x.tid = some i ∧ Replaces v rec x) ∧
    (∀ i v rec l, Returned p i v rec (.error errConflict) l →
      (∀ x ∈ p.shared.log, x.tid ≠ some i) ∧
      ((∃ r ∈ l.reads, r ≠ expectedState v) ∨
        (l.attempts.length = K8sLeaseStore.maxPutUpdateAttempts ∧
          ∀ ab ∈ l.attempts, AttemptLost p.shared (k8sLeaseName rec.key) ab))) := by
  have hpool := store_ok h
  have hok : Ok p.shared := hpool.inv
  have hpost : ∀ {i v rec a l}, Returned p i v rec a l → PutPost i v rec a l p.shared := by
    rintro i v rec a l ⟨t, ht, hc, rfl, hres⟩
    exact hpool.returned ht hres v rec a hc rfl
  have hwrite : ∀ {i v rec l}, Returned p i v rec (.ok ()) l →
      ∃ x ∈ p.shared.log, x.tid = some i ∧ x.put = some (v, rec) ∧
        (v ≠ maxInt64 → Replaces v rec x) := by
    intro i v rec l hret
    obtain ⟨x, hx, htid, hput⟩ := (hpost hret).ok rfl
    refine ⟨x, hx, htid, hput, ?_⟩
    rcases hok.fair x hx with ⟨_, v', rec', _, hput', hrep⟩ | ⟨hno, _⟩
    · rw [hput, Option.some.injEq, Prod.mk.injEq] at hput'
      rw [hput'.1, hput'.2]
      exact hrep
    · rw [htid] at hno
      cases hno
  refine ⟨?_, ?_, ?_⟩
  · intro hbelow i j v rec rec' l l' hi hj hkey
    obtain ⟨x, hx, htx, hputx, hrepx⟩ := hwrite hi
    obtain ⟨y, hy, hty, hputy, hrepy⟩ := hwrite hj
    have hv : v ≠ maxInt64 := hbelow x hx v rec hputx
    have hname : x.name = y.name := by rw [(hrepx hv).name, (hrepy hv).name, hkey]
    have hxy : x = y := by
      by_contra hne
      exact (hok.once hbelow).forall hx hy hne v rec v rec' hputx hputy hname rfl
    rw [hxy, hty, Option.some.injEq] at htx
    exact htx.symm
  · intro i v rec l hv hret
    obtain ⟨x, hx, htid, _, hrep⟩ := hwrite hret
    exact ⟨x, hx, htid, hrep hv⟩
  · intro i v rec l hret
    exact (hpost hret).conflict rfl

/-- An object from before the version annotation: it reads as version 1. -/
def legacyObject : LeaseObject :=
  { name := "jobs.nightly", ns := "berth", resourceVersion := 7
    labels := (∅ : StringMap).insert managedByLabel managedByValue
    annotations := ((∅ : StringMap).insert tenantNamespaceAnnotation "jobs").insert
      leaseNameAnnotation "nightly"
    spec := { holderIdentity := some "a", leaseTransitions := some 3 } }

/-- A server that holds one object. -/
def Initial.single (o : LeaseObject) : Initial where
  objects := (∅ : AList fun _ : String => LeaseObject).insert o.name o
  revision := o.resourceVersion
  named := by
    intro name o' ho
    by_cases hname : name = o.name
    · subst hname
      rw [AList.lookup_insert, Option.some.injEq] at ho
      rw [ho]
    · rw [AList.lookup_insert_ne hname, AList.lookup_empty] at ho
      cases ho
  bounded := by
    intro name o' ho
    by_cases hname : name = o.name
    · subst hname
      rw [AList.lookup_insert, Option.some.injEq] at ho
      exact Nat.le_of_eq (by rw [ho])
    · rw [AList.lookup_insert_ne hname, AList.lookup_empty] at ho
      cases ho

def legacyRecord : Record := ⟨⟨"jobs", "nightly"⟩, "b", 10 * second, 0, 0, 4, 0⟩

/-- A Put over version 1, disturbed by a foreign label between its read
and its update, and a second Put over version 1. -/
def disturbedPut : List (Action (machine "berth")) :=
  [.spawn (.put 1 legacyRecord), .exec 0 (.ctx none), .exec 0 .answer,
   .env ⟨"jobs.nightly", legacyObject.labels.insert "team" "ops", legacyObject.annotations⟩,
   .exec 0 .answer, .exec 0 (.ctx none), .exec 0 .answer, .exec 0 .answer,
   .spawn (.put 1 legacyRecord), .exec 1 (.ctx none), .exec 1 .answer]

def upgraded : Pool (machine "berth") :=
  (Pool.empty (Initial.single legacyObject).server).after disturbedPut (by decide)

theorem put_is_compare_and_swap_upgraded :
    Unwrapped upgraded.shared ∧ (∃ l, Returned upgraded 0 1 legacyRecord (.ok ()) l) ∧
      (∃ x ∈ upgraded.shared.log, x.tid = some 0 ∧ Replaces 1 legacyRecord x) ∧
      (∀ j rec l, Returned upgraded j 1 rec (.ok ()) l → rec.key = legacyRecord.key → 0 = j) ∧
      ∃ l, Returned upgraded 1 1 legacyRecord (.error errConflict) l ∧
        ∀ x ∈ upgraded.shared.log, x.tid ≠ some 1 := by
  have hreach : (Pool.empty (Initial.single legacyObject).server :
      Pool (machine "berth")).Reaches upgraded := Pool.reaches_after _
  obtain ⟨honce, hreplaced, hconflict⟩ := put_is_compare_and_swap hreach
  have hputs : upgraded.shared.log.map ObjectWrite.put = [some (1, legacyRecord), none] := by decide
  have hbelow : Unwrapped upgraded.shared := by
    intro x hx v rec hput
    have hmem := List.mem_map_of_mem (f := ObjectWrite.put) hx
    rw [hputs, hput] at hmem
    simp only [List.mem_cons, Option.some.injEq, Prod.mk.injEq, reduceCtorEq, List.not_mem_nil,
      or_false] at hmem
    rw [hmem.1]
    decide
  obtain ⟨l, hfirst⟩ : ∃ l, Returned upgraded 0 1 legacyRecord (.ok ()) l :=
    ⟨_, _, rfl, rfl, rfl, rfl⟩
  obtain ⟨l', hsecond⟩ : ∃ l, Returned upgraded 1 1 legacyRecord (.error errConflict) l :=
    ⟨_, _, rfl, rfl, rfl, rfl⟩
  refine ⟨hbelow, ⟨l, hfirst⟩, hreplaced 0 1 legacyRecord l (by decide) hfirst, ?_, l', hsecond,
    (hconflict 1 1 legacyRecord l' hsecond).1⟩
  intro j rec l'' hj hkey
  exact honce hbelow 0 j 1 legacyRecord rec l l'' hfirst hj hkey.symm

end K8s

end Berth.Lease
