/-
Berth.Operator.Ledger — what was asked and answered.

The API server's requests and the journal of the threads agree with the
objects: an object carries the binding of the CREATE it came from, an
answered write was made, and a Release was asked for what a stopping lease
had recorded.

The rest is about stop fences. `FenceOk c o` says what it is worth to have
seen `o` with a fence that names a version of a lease: if `o` was inactive
and is the lease's target, then the target is inactive as long as the
lease is stopping. That rests on the fence being written after the version
it names, which is true of the operator's own fences and of nobody
else's.
-/
import Berth.Operator.Records
import Berth.Lease.Decimal

namespace Berth.Operator

open Berth.Interleave Berth.Lease Berth.Api Berth.Client

variable {ι : Type} {F : Fleet ι} {c c' : Cluster} {l m : BerthLease} {v : Version} {o : Object}

/-! ## Stop fences -/

/-- The revision that the stop fence names. -/
def fenceOf (o : Object) : Option Nat := parseDigits (o.annotation stopFence).toList

theorem fenceOf_toString {n : Nat} (h : o.annotation stopFence = toString n) :
    fenceOf o = some n := by
  unfold fenceOf
  rw [h]
  show parseDigits (String.ofList (Nat.toDigits 10 n)).toList = some n
  rw [String.toList_ofList, parseDigits_toDigits]

/-- What follows from having seen `o`. -/
structure FenceOk (c : Cluster) (o : Object) : Prop where
  issued : ∀ n, fenceOf o = some n → n ≤ c.revision
  used : o.uid ∈ c.uids
  holds : ∀ v ∈ c.versions, fenceOf o = some v.lease.resourceVersion →
    v.lease.targetUID = o.uid → v.lease.targetUID ≠ "" → inactiveTarget o = true →
    StoppingFrom c v.lease.uid v.lease.resourceVersion → Halted c v.lease.resourceVersion o.uid

theorem FenceOk.evolves (h : FenceOk c o) (he : Evolves c c') : FenceOk c' o where
  issued := fun n hn => Nat.le_trans (h.issued n hn) he.revision
  used := he.uids h.used
  holds := by
    intro v hv hf htar hne hin hstop
    rcases he.later v hv with hv | hlt
    · have hh := h.holds v hv hf htar hne hin (hstop.of_suffix he.versions)
      rw [← htar] at hh ⊢
      exact he.halts v hv hne (htar ▸ h.used) hstop hh
    · exact absurd hlt (Nat.not_lt.mpr (h.issued _ hf))

/-- Every stored fence is older than its object. -/
def Fenced (c : Cluster) : Prop :=
  ∀ o ∈ c.objects, ∀ n, fenceOf o.object = some n → n < o.object.resourceVersion

theorem Fenced.fenceOk {q : Stored} (h : Fenced c) (hwf : Wf c) (hq : q ∈ c.objects) :
    FenceOk c q.object where
  issued := fun n hn => Nat.le_trans (Nat.le_of_lt (h q hq n hn)) (hwf.object_top q hq)
  used := hwf.object_uid q hq
  holds := by
    intro v _ hf _ _ hin _ p hp huid
    rw [hwf.object_inj p hp q hq huid]
    exact ⟨h q hq _ hf, hin⟩

/-! ## Requests -/

/-- Someone asked for this object to be created. -/
def Created (c : Cluster) (o : Object) : Prop :=
  ∃ (id : Nat) (p : Pending), c.requests[id]? = some p ∧ p.write = .create o

/-- The stored object carries what matters of the CREATE. -/
def Bears (o q : Object) : Prop :=
  q.key = o.key ∧ (o.annotation managedUID ≠ "" →
    q.annotation managedUID = o.annotation managedUID ∧
      q.annotation managedLease = o.annotation managedLease)

/-- Objects come from CREATE requests, each with a UID of its own. -/
structure Sourced (c : Cluster) : Prop where
  inj : ∀ o o', Created c o → Created c o' → o.uid = o'.uid → o = o'
  reserved : ∀ o, Created c o → o.uid ∈ c.reserved
  objects : ∀ q ∈ c.objects, ∀ o, Created c o → o.uid = q.object.uid → Bears o q.object

/-- An object under a recorded target UID is the target. -/
theorem Sourced.aimed {q : Stored} (h : Sourced c) (hreq : Requested c l q.object.uid)
    (hq : q ∈ c.objects) (hne : l.uid ≠ "") : Aimed l q.object := by
  obtain ⟨id, p, o, hp, hw, huid, haim⟩ := hreq
  obtain ⟨hkey, hann⟩ := h.objects q hq o ⟨id, p, hp, hw⟩ huid
  obtain ⟨hbind, hname⟩ := hann (by rw [haim.uid]; exact hne)
  obtain ⟨t, ht, htkey⟩ := haim.key
  have hkind := ObjectKey.mk.inj hkey
  refine ⟨hbind.trans haim.uid, hname.trans haim.name, ⟨t, ht, htkey.trans hkey.symm⟩, ?_⟩
  rw [hkind.1, hkind.2.1]
  exact haim.kind

theorem Sourced.of_eq (h : Sourced c) (ho : c'.objects = c.objects)
    (hreq : c'.requests = c.requests) (hres : c'.reserved = c.reserved) : Sourced c' := by
  have hcreated : ∀ o, Created c' o → Created c o := fun o ⟨id, p, hp, hw⟩ => ⟨id, p, hreq ▸ hp, hw⟩
  refine ⟨fun o o' h₁ h₂ => h.inj o o' (hcreated o h₁) (hcreated o' h₂), fun o h₁ => ?_,
    fun q hq o h₁ => ?_⟩
  · rw [hres]
    exact h.reserved o (hcreated o h₁)
  · rw [ho] at hq
    exact h.objects q hq o (hcreated o h₁)

/-! ## The journal -/

/-- `endpoint` on `key` releases what version `v` of lease `l` has
recorded. -/
structure ReleaseOf (v : Version) (l : BerthLease) (key : Key) (endpoint : Endpoint) : Prop where
  same : SameLease v.lease l
  phase : v.lease.phase = .stopping
  key : key = v.lease.central
  name : (v.lease.activation.map Activation.leaseName).getD "" = v.lease.spec.leaseName
  endpoint : endpoint = releaseEndpoint v.lease.holder v.lease.token

/-- What threads were told. -/
structure Heard (c : Cluster) : Prop where
  submitted : ∀ i o (id : Nat), (i, (⟨.submit o, id⟩ : Event ClusterSig)) ∈ c.journal →
    ∃ p, c.requests[id]? = some p ∧ p.write = .update o ∧ p.dryRun = false
  answered : ∀ i id, (i, (⟨.awaitWrite id, .ok ()⟩ : Event ClusterSig)) ∈ c.journal →
    ∃ p, c.requests[id]? = some p ∧ p.answer = some (.ok ())
  released : ∀ i l key endpoint n,
    (i, (⟨.post l key endpoint, n⟩ : Event ClusterSig)) ∈ c.journal →
    isRelease endpoint = true → l.spec.target.isSome = true →
    ∃ v ∈ c.versions, ReleaseOf v l key endpoint

/-- Fences in the objects, in what was read and in what was written. -/
structure Fences (c : Cluster) : Prop where
  stored : Fenced c
  seen : ∀ i k o, (i, (⟨.getObject k, .ok o⟩ : Event ClusterSig)) ∈ c.journal →
    FenceOk c o ∧ o.key = k
  answered : ∀ (id : Nat) p o, c.requests[id]? = some p → p.write = .update o → p.dryRun = false →
    p.answer = some (.ok ()) → o.uid ≠ "" → FenceOk c o

structure Ledger (F : Fleet ι) (c : Cluster) : Prop where
  sourced : Sourced c
  heard : Heard c
  fences : F.honest = true → Fences c

/-- A change that answers no request and notes nothing. -/
theorem Ledger.keep (h : Ledger F c) (he : Evolves c c') (hreq : c'.requests = c.requests)
    (hj : c'.journal = c.journal) (hsrc : Sourced c') (hst : F.honest = true → Fenced c') :
    Ledger F c' where
  sourced := hsrc
  heard := by
    refine ⟨?_, ?_, ?_⟩ <;> rw [hj]
    · rw [hreq]
      exact h.heard.submitted
    · rw [hreq]
      exact h.heard.answered
    · intro i l key endpoint n hmem hrel htar
      obtain ⟨v, hv, hrest⟩ := h.heard.released i l key endpoint n hmem hrel htar
      exact ⟨v, he.versions.subset hv, hrest⟩
  fences := fun hhon => by
    refine ⟨hst hhon, ?_, ?_⟩
    · rw [hj]
      exact fun i k o hmem => ((h.fences hhon).seen i k o hmem).imp_left (·.evolves he)
    · rw [hreq]
      exact fun id p o hp hw hd ha hne => ((h.fences hhon).answered id p o hp hw hd ha hne).evolves he

/-- A change that touches no object either. -/
theorem Ledger.of_eq (h : Ledger F c) (he : Evolves c c') (ho : c'.objects = c.objects)
    (hreq : c'.requests = c.requests) (hres : c'.reserved = c.reserved)
    (hj : c'.journal = c.journal) : Ledger F c' := by
  refine h.keep he hreq hj (h.sourced.of_eq ho hreq hres) fun hhon => ?_
  unfold Fenced
  rw [ho]
  exact (h.fences hhon).stored

/-- An object changes, or appears as someone asked. -/
theorem Ledger.putObject {q : Stored} (h : Ledger F c) (hwf : Wf c) (ho : Origin c q)
    (hr : Rests c q)
    (hnew : q.object.uid ∉ c.uids → ∃ o, Created c o ∧ o.uid = q.object.uid ∧ Bears o q.object)
    (hst : F.honest = true → ∀ n, fenceOf q.object = some n → n ≤ c.revision) :
    Ledger F (c.putObject q) := by
  refine h.keep (Evolves.putObject hwf ho hr) rfl rfl ⟨h.sourced.inj, h.sourced.reserved, ?_⟩
    fun hhon => ?_
  · intro p hp o hcre huid
    rcases mem_putObject.mp hp with rfl | ⟨hp, _⟩
    · rcases ho with ⟨p, hp, hd⟩ | hfresh
      · obtain ⟨hkey, hann⟩ := h.sourced.objects p hp o hcre (huid.trans hd.uid)
        refine ⟨hd.key.trans hkey, fun hne => ?_⟩
        obtain ⟨hbind, hname⟩ := hann hne
        obtain ⟨hbind', hname'⟩ := hd.bound (by rw [hbind]; exact hne)
        exact ⟨hbind'.trans hbind, hname'.trans hname⟩
      · obtain ⟨o', hcre', huid', hbears⟩ := hnew hfresh
        rw [h.sourced.inj o o' hcre hcre' (huid.trans huid'.symm)]
        exact hbears
    · exact h.sourced.objects p hp o hcre huid
  · intro p hp n hn
    rcases mem_putObject.mp hp with rfl | ⟨hp, _⟩
    · exact Nat.lt_succ_of_le (hst hhon n hn)
    · exact (h.fences hhon).stored p hp n hn

theorem Ledger.dropObject (h : Ledger F c) (k : ObjectKey) : Ledger F (c.dropObject k) := by
  refine h.keep (Evolves.dropObject c k) rfl rfl ⟨h.sourced.inj, h.sourced.reserved, ?_⟩ fun hhon => ?_
  · exact fun p hp => h.sourced.objects p (mem_dropObject.mp hp).1
  · exact fun p hp => (h.fences hhon).stored p (mem_dropObject.mp hp).1

/-- What an entry of the journal has to be backed by. -/
structure Entry (F : Fleet ι) (c : Cluster) (e : Event ClusterSig) : Prop where
  submitted : ∀ o (id : Nat), e = ⟨.submit o, id⟩ →
    ∃ p, c.requests[id]? = some p ∧ p.write = .update o ∧ p.dryRun = false
  answered : ∀ id, e = ⟨.awaitWrite id, .ok ()⟩ →
    ∃ p, c.requests[id]? = some p ∧ p.answer = some (.ok ())
  released : ∀ l key endpoint n, e = ⟨.post l key endpoint, n⟩ → isRelease endpoint = true →
    l.spec.target.isSome = true → ∃ v ∈ c.versions, ReleaseOf v l key endpoint
  seen : F.honest = true → ∀ k o, e = ⟨.getObject k, .ok o⟩ → FenceOk c o ∧ o.key = k

theorem alike_note (c : Cluster) (i : Nat) (e : Event ClusterSig) : Alike c (c.note i e) :=
  ⟨rfl, rfl, rfl, List.Subset.refl _, rfl, rfl, Grows.refl _, List.suffix_cons _ _⟩

theorem Ledger.note {i : Nat} {e : Event ClusterSig} (h : Ledger F c) (he : Entry F c e) :
    Ledger F (c.note i e) where
  sourced := h.sourced.of_eq rfl rfl rfl
  heard := by
    refine ⟨fun i' o id hmem => ?_, fun i' id hmem => ?_, fun i' l key endpoint n hmem => ?_⟩
    · rcases List.mem_cons.mp hmem with heq | hmem
      · exact he.submitted o id (Prod.mk.inj heq).2.symm
      · exact h.heard.submitted i' o id hmem
    · rcases List.mem_cons.mp hmem with heq | hmem
      · exact he.answered id (Prod.mk.inj heq).2.symm
      · exact h.heard.answered i' id hmem
    · rcases List.mem_cons.mp hmem with heq | hmem
      · exact he.released l key endpoint n (Prod.mk.inj heq).2.symm
      · exact h.heard.released i' l key endpoint n hmem
  fences := fun hhon => by
    have hev := (alike_note c i e).evolves
    refine ⟨(h.fences hhon).stored, fun i' k o hmem => ?_, fun id p o hp hw hd ha hne => ?_⟩
    · rcases List.mem_cons.mp hmem with heq | hmem
      · exact (he.seen hhon k o (Prod.mk.inj heq).2.symm).imp_left (·.evolves hev)
      · exact ((h.fences hhon).seen i' k o hmem).imp_left (·.evolves hev)
    · exact ((h.fences hhon).answered id p o hp hw hd ha hne).evolves hev

/-! ## Requests come and are answered -/

theorem grows_append (rs : List Pending) (p : Pending) : Grows rs (rs ++ [p]) := by
  intro id q hq
  have hlt := (List.getElem?_eq_some_iff.mp hq).1
  exact ⟨q, by rw [List.getElem?_append_left hlt]; exact hq, rfl, rfl, fun _ ha => ha⟩

/-- A new request, not answered yet. A CREATE brings an unused UID. -/
theorem Ledger.append {p : Pending} {res : List String} (h : Ledger F c)
    (hp : p.answer = none) (hwf : Wf c)
    (hres : c.reserved ⊆ res) (hcre : ∀ o, p.write = .create o →
      o.uid ∉ c.uids ∧ o.uid ∉ c.reserved ∧ o.uid ∈ res) :
    Ledger F { c with requests := c.requests ++ [p], reserved := res } := by
  have hev : Evolves c { c with requests := c.requests ++ [p], reserved := res } :=
    Alike.evolves ⟨rfl, rfl, rfl, List.Subset.refl _, rfl, rfl, grows_append _ _, List.suffix_refl _⟩
  have hcases : ∀ o, Created { c with requests := c.requests ++ [p], reserved := res } o →
      Created c o ∨ p.write = .create o := by
    rintro o ⟨id, q, hq, hw⟩
    rcases getElem?_concat_cases hq with ⟨-, hq⟩ | ⟨-, rfl⟩
    · exact .inl ⟨id, q, hq, hw⟩
    · exact .inr hw
  refine ⟨⟨?_, ?_, ?_⟩, ⟨?_, ?_, ?_⟩, fun hhon => ⟨(h.fences hhon).stored, ?_, ?_⟩⟩
  · intro o o' h₁ h₂ huid
    rcases hcases o h₁ with h₁ | h₁
    · rcases hcases o' h₂ with h₂ | h₂
      · exact h.sourced.inj o o' h₁ h₂ huid
      · exact absurd (huid ▸ h.sourced.reserved o h₁) (hcre o' h₂).2.1
    · rcases hcases o' h₂ with h₂ | h₂
      · exact absurd (huid ▸ h.sourced.reserved o' h₂) (hcre o h₁).2.1
      · rw [h₁] at h₂
        exact ObjectWrite.create.inj h₂
  · intro o h₁
    rcases hcases o h₁ with h₁ | h₁
    · exact hres (h.sourced.reserved o h₁)
    · exact (hcre o h₁).2.2
  · intro q hq o h₁ huid
    rcases hcases o h₁ with h₁ | h₁
    · exact h.sourced.objects q hq o h₁ huid
    · exact absurd (huid ▸ hwf.object_uid q hq) (hcre o h₁).1
  · intro i o id hmem
    obtain ⟨q, hq, hw, hd⟩ := h.heard.submitted i o id hmem
    obtain ⟨q', hq', hw', hd', _⟩ := hev.requests id q hq
    exact ⟨q', hq', hw'.trans hw, hd'.trans hd⟩
  · intro i id hmem
    obtain ⟨q, hq, ha⟩ := h.heard.answered i id hmem
    obtain ⟨q', hq', _, _, ha'⟩ := hev.requests id q hq
    exact ⟨q', hq', ha' _ ha⟩
  · exact h.heard.released
  · exact fun i k o hmem => ((h.fences hhon).seen i k o hmem).imp_left (·.evolves hev)
  · intro id q o hq hw hd ha hne
    rcases getElem?_concat_cases hq with ⟨-, hq⟩ | ⟨-, rfl⟩
    · exact ((h.fences hhon).answered id q o hq hw hd ha hne).evolves hev
    · rw [hp] at ha
      cases ha

/-- An unanswered request is answered. -/
theorem grows_reply {id : Nat} {p : Pending} {a : Except ApiErr Unit}
    (hp : c.requests[id]? = some p) (hopen : p.answer = none) :
    Grows c.requests (c.reply id a).requests := by
  intro k q hq
  show ∃ q', (c.requests.modify id _)[k]? = some q' ∧ _
  rw [List.getElem?_modify, hq]
  by_cases hk : id = k
  · subst hk
    rw [hp] at hq
    cases hq
    refine ⟨{ p with answer := some a }, by simp, rfl, rfl, fun b hb => ?_⟩
    rw [hopen] at hb
    cases hb
  · exact ⟨q, by simp [hk], rfl, rfl, fun _ ha => ha⟩

/-- A request of the new list is one of the old, with its answer perhaps. -/
theorem reply_cases {id k : Nat} {q : Pending} {a : Except ApiErr Unit}
    (h : (c.reply id a).requests[k]? = some q) :
    ∃ p, c.requests[k]? = some p ∧ q.write = p.write ∧ q.dryRun = p.dryRun ∧
      (q.answer = p.answer ∨ k = id ∧ q.answer = some a) := by
  have h : (c.requests.modify id fun p => { p with answer := some a })[k]? = some q := h
  rw [List.getElem?_modify, Option.map_eq_map, Option.map_eq_some_iff] at h
  obtain ⟨p, hp, rfl⟩ := h
  by_cases hk : id = k
  · exact ⟨p, hp, by simp [hk], by simp [hk], .inr ⟨hk.symm, by simp [hk]⟩⟩
  · exact ⟨p, hp, by simp [hk], by simp [hk], .inl (by simp [hk])⟩

theorem alike_reply {id : Nat} {p : Pending} {a : Except ApiErr Unit}
    (hp : c.requests[id]? = some p) (hopen : p.answer = none) : Alike c (c.reply id a) :=
  ⟨rfl, rfl, rfl, List.Subset.refl _, rfl, rfl, grows_reply hp hopen, List.suffix_refl _⟩

/-- The answer to a write that was stored comes with what it is worth. -/
theorem Ledger.reply {id : Nat} {p : Pending} {a : Except ApiErr Unit} (h : Ledger F c)
    (hp : c.requests[id]? = some p) (hopen : p.answer = none)
    (hok : F.honest = true → a = .ok () → ∀ o, p.write = .update o → p.dryRun = false →
      o.uid ≠ "" → FenceOk c o) : Ledger F (c.reply id a) := by
  have hev := (alike_reply (a := a) hp hopen).evolves
  have hcre : ∀ o, Created (c.reply id a) o → Created c o := by
    rintro o ⟨k, q, hq, hw⟩
    obtain ⟨p', hp', hw', _⟩ := reply_cases hq
    exact ⟨k, p', hp', hw'.symm.trans hw⟩
  refine ⟨⟨fun o o' h₁ h₂ => h.sourced.inj o o' (hcre o h₁) (hcre o' h₂),
    fun o h₁ => h.sourced.reserved o (hcre o h₁),
    fun q hq o h₁ => h.sourced.objects q hq o (hcre o h₁)⟩, ⟨?_, ?_, h.heard.released⟩,
    fun hhon => ⟨(h.fences hhon).stored, ?_, ?_⟩⟩
  · intro i o k hmem
    obtain ⟨q, hq, hw, hd⟩ := h.heard.submitted i o k hmem
    obtain ⟨q', hq', hw', hd', _⟩ := hev.requests k q hq
    exact ⟨q', hq', hw'.trans hw, hd'.trans hd⟩
  · intro i k hmem
    obtain ⟨q, hq, ha⟩ := h.heard.answered i k hmem
    obtain ⟨q', hq', _, _, ha'⟩ := hev.requests k q hq
    exact ⟨q', hq', ha' _ ha⟩
  · exact fun i k o hmem => ((h.fences hhon).seen i k o hmem).imp_left (·.evolves hev)
  · intro k q o hq hw hd ha hne
    obtain ⟨p', hp', hw', hd', ha' | ⟨rfl, ha'⟩⟩ := reply_cases hq
    · exact ((h.fences hhon).answered k p' o hp' (hw'.symm.trans hw) (hd'.symm.trans hd)
        (ha'.symm.trans ha) hne).evolves hev
    rw [hp] at hp'
    cases hp'
    rw [ha', Option.some.injEq] at ha
    exact (hok hhon ha o (hw'.symm.trans hw) (hd'.symm.trans hd) hne).evolves hev

end Berth.Operator
