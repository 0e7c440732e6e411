/-
Berth.Lease.K8sLedgerTheorems — the Kubernetes store as a ledger.

The last record of a key is the object with the key's name, stamped with
the record: its spec, its annotations and the label by which it is listed
(`Holds`). The rules for requests say what a lone API server answers; the
store's methods are walked through with them. A Lease made from a proper
record is never refused.
-/
import Berth.Lease.K8sStoreTheorems
import Berth.Lease.KeyTheorems
import Berth.Lease.LedgerTheorems

namespace Berth.Lease

open Berth.Interleave

open K8s (StoreCall StoreOutcome)

variable {r r' : Record} {key : Key}

/-! ## Records that survive a Lease -/

/-- Whole seconds, and the tombstone's zero, survive a Lease. -/
theorem Record.Proper.leaseDuration (h : r.Proper) :
    (leaseDuration r).getD 0 * second = r.ttl ∧ (leaseDuration r).any (· ≤ 0) = false := by
  unfold Lease.leaseDuration
  rcases h.ttl with ⟨n, hpos, hle, hn⟩ | ⟨hholder, hzero⟩
  · have hne : (r.ttl == 0) = false := by
      rw [hn, beq_eq_false_iff_ne]
      exact Int.mul_ne_zero (by omega) (by decide)
    have hdiv : r.ttl.tdiv second = n := by
      rw [hn]
      exact Int.mul_tdiv_cancel n (by decide)
    rw [hne, Bool.and_false, if_neg Bool.false_ne_true, hdiv, toInt32_of_range (by omega) hle]
    refine ⟨hn.symm, ?_⟩
    rw [Option.any_some, decide_eq_false_iff_not]
    omega
  · have htomb : r.tombstone = true := Record.tombstone_iff.mpr hholder
    rw [htomb, hzero]
    exact ⟨rfl, rfl⟩

theorem Record.Proper.storedRecord (h : r.Proper) :
    storedRecord r r.version = r.kept microTime := by
  rw [Lease.storedRecord, ← leaseDuration_getD, h.leaseDuration.1]
  rfl

/-! ## Objects and records -/

namespace K8s

variable {s s' : Server} {w : Ledger} {o : LeaseObject} {α : Type} {Q : α → Server → Prop}

/-- The object holds the record. -/
structure Holds (o : LeaseObject) (r : Record) : Prop where
  name : o.name = k8sLeaseName r.key
  annotations : ∃ m, o.annotations = stampAnnotations m r r.version
  spec : o.spec = specOf r
  label : o.labels.lookup managedByLabel = some managedByValue

/-- The objects hold the last records of their keys. -/
structure Shows (s : Server) (w : Ledger) : Prop where
  stored : ∀ {key r}, w.latest key = some r →
    ∃ o, s.objects.lookup (k8sLeaseName key) = some o ∧ Holds o r
  known : ∀ {name o}, s.objects.lookup name = some o →
    ∃ r, w.latest r.key = some r ∧ name = k8sLeaseName r.key ∧ Holds o r
  sound : w.Sound
  counted : (w.length : Int) ≤ maxInt64

/-- The server has stored `o`. -/
def Stores (o : LeaseObject) (s s' : Server) : Prop :=
  s'.objects = s.objects.insert o.name { o with resourceVersion := s.revision + 1 }

theorem Holds.revised (h : Holds o r) (n : Nat) : Holds { o with resourceVersion := n } r :=
  ⟨h.name, h.annotations, h.spec, h.label⟩

/-- The object of a last record reads as its version. -/
theorem Shows.version (h : Shows s w) (hr : w.latest key = some r) (ho : Holds o r) :
    versionFromLease o = r.version := by
  obtain ⟨m, hm⟩ := ho.annotations
  obtain ⟨-, hpos, hle⟩ := h.sound.latest hr
  exact versionFromLease_stamp hm hpos (Int.le_trans hle h.counted)

/-- The object of a last record reads as that record. -/
theorem Shows.record (h : Shows s w) (hr : w.latest key = some r) (ho : Holds o r) :
    recordFromLease o = .ok (r.kept microTime) := by
  obtain ⟨m, hm⟩ := ho.annotations
  obtain ⟨hproper, hpos, hle⟩ := h.sound.latest hr
  rw [recordFromLease_stamp hm ho.spec hpos (Int.le_trans hle h.counted), hproper.storedRecord]

theorem Shows.absent (h : Shows s w) (hkey : validateKey key = .ok ())
    (hnone : w.latest key = none) : s.objects.lookup (k8sLeaseName key) = none := by
  cases ho : s.objects.lookup (k8sLeaseName key) with
  | none => rfl
  | some o =>
    obtain ⟨r, hr, hname, -⟩ := h.known ho
    rw [k8sLeaseName_inj (dot_not_mem_ns hkey) (dot_not_mem_ns (h.sound.latest hr).1.key) hname,
      hr] at hnone
    cases hnone

theorem Shows.absent_iff (h : Shows s w) (hkey : validateKey key = .ok ()) :
    s.objects.lookup (k8sLeaseName key) = none ↔ w.latest key = none := by
  refine ⟨fun hnone => ?_, h.absent hkey⟩
  cases hl : w.latest key with
  | none => rfl
  | some r =>
    obtain ⟨o, ho, -⟩ := h.stored hl
    rw [hnone] at ho
    cases ho

/-- A write keeps the correspondence. -/
theorem Shows.write (h : Shows s w) {rec : Record} {v : Int} (hrec : rec.Proper)
    (hlt : (w.length : Int) < maxInt64) (hv : v = w.version rec.key)
    (ho : Holds o { rec with version := v + 1 }) (hs : Stores o s s') :
    Shows s' ({ rec with version := v + 1 } :: w) where
  stored := by
    intro key r hr
    rw [Ledger.latest_written] at hr
    split at hr
    · next hkey =>
      cases hr
      have hname : k8sLeaseName key = o.name := hkey ▸ ho.name.symm
      rw [hs, hname]
      exact ⟨_, AList.lookup_insert _, ho.revised _⟩
    · next hkey =>
      have hne : k8sLeaseName key ≠ o.name := by
        intro hname
        obtain ⟨-, rfl⟩ := Ledger.latest_eq_some hr
        exact hkey (k8sLeaseName_inj (dot_not_mem_ns (h.sound.latest hr).1.key)
          (dot_not_mem_ns hrec.key) (hname.trans ho.name))
      rw [hs, AList.lookup_insert_ne hne]
      exact h.stored hr
  known := by
    intro name o' ho'
    rw [hs] at ho'
    by_cases hname : name = o.name
    · subst hname
      rw [AList.lookup_insert, Option.some.injEq] at ho'
      refine ⟨{ rec with version := v + 1 }, ?_, ho.name, ho' ▸ ho.revised _⟩
      rw [Ledger.latest_written, if_pos rfl]
    · rw [AList.lookup_insert_ne hname] at ho'
      obtain ⟨r, hr, hr', hholds⟩ := h.known ho'
      refine ⟨r, ?_, hr', hholds⟩
      rw [Ledger.latest_written, if_neg, hr]
      intro hkey
      exact hname (hr'.trans (hkey ▸ ho.name.symm))
  sound := h.sound.cons hrec hv
  counted := hlt

/-! ## Requests -/

/-- Bookkeeping for a caller of no interest. -/
def anyone : Loc := { call := .list, readAt := 0, reads := [], attempts := [] }

/-- A request that the server takes up is answered as the shared server
answers it. -/
theorem meets_request {op : K8sOp} {k : op.Res → Prog K8sSig α} (htakes : Takes op)
    (hsome : ∃ ch x, Healthy ch ∧ exec 0 ch op anyone s = some x)
    (hk : ∀ ch l r l' s', Healthy ch → exec 0 ch op l s = some (r, l', s') →
      (k r).Meets apiServer Q s') :
    (Prog.op op k : Prog K8sSig α).Meets apiServer Q s := by
  obtain ⟨ch, ⟨r, l', s'⟩, hch, hex⟩ := hsome
  refine ⟨⟨r, s', .inr ⟨htakes, ch, anyone, l', hch, hex⟩⟩, ?_⟩
  rintro r s' (⟨msg, hrefuses, -⟩ | ⟨-, ch, l, l', hch, hex⟩)
  · cases op with
    | create o => exact absurd hrefuses.1 (by rw [show invalid o = false from htakes]; decide)
    | update o => exact absurd hrefuses.1 (by rw [show invalid o = false from htakes]; decide)
    | _ => exact hrefuses.elim
  · exact hk ch l r l' s' hch hex

/-- The answer to a get. -/
def fetched (s : Server) (name : String) : Except ApiError LeaseObject :=
  match s.objects.lookup name with
  | none => .error .notFound
  | some o => .ok o

theorem meets_get {name : String} {k : Except ApiError LeaseObject → Prog K8sSig α}
    (hk : (k (fetched s name)).Meets apiServer Q s) :
    ((Leases.get name).bind k).Meets apiServer Q s := by
  have hex : ∀ l, ∃ l', exec 0 .answer (.get name) l s = some (fetched s name, l', s) := by
    intro l
    rw [exec, fetched]
    cases s.objects.lookup name with
    | none => exact ⟨_, rfl⟩
    | some o => exact ⟨_, rfl⟩
  refine meets_request trivial ⟨.answer, _, trivial, (hex anyone).choose_spec⟩ ?_
  intro ch l r l' s' hch h
  cases ch with
  | answer =>
    obtain ⟨l₁, h₁⟩ := hex l
    rw [h₁] at h
    cases h
    exact hk
  | fault => exact hch.elim
  | _ => cases h

theorem meets_ctxErr {k : Option Err → Prog K8sSig α} (hk : (k none).Meets apiServer Q s) :
    (Leases.ctxErr.bind k).Meets apiServer Q s := by
  refine meets_request trivial ⟨.ctx none, _, rfl, rfl⟩ ?_
  intro ch l r l' s' hch h
  cases ch with
  | ctx err =>
    cases h
    cases hch
    exact hk
  | _ => cases h

theorem meets_list {label value : String}
    {k : Except ApiError (List LeaseObject) → Prog K8sSig α}
    (hk : ∀ items, items.Perm (s.select label value) → (k (.ok items)).Meets apiServer Q s) :
    ((Leases.list label value).bind k).Meets apiServer Q s := by
  refine meets_request trivial ⟨.order (s.select label value), (.ok _, _, _), trivial,
    if_pos (List.isPerm_iff.mpr (.refl _))⟩ ?_
  intro ch l r l' s' hch h
  cases ch with
  | order items =>
    rw [exec] at h
    split at h
    · next hperm =>
      cases h
      exact hk items (List.isPerm_iff.mp hperm)
    · cases h
  | fault => exact hch.elim
  | _ => cases h

theorem meets_create {k : Except ApiError Unit → Prog K8sSig α} (hvalid : invalid o = false)
    (hnone : s.objects.lookup o.name = none → ∀ s', Stores o s s' →
      (k (.ok ())).Meets apiServer Q s')
    (hsome : ∀ cur, s.objects.lookup o.name = some cur →
      (k (.error .alreadyExists)).Meets apiServer Q s) :
    ((Leases.create o).bind k).Meets apiServer Q s := by
  refine meets_request hvalid ⟨.answer, _, trivial, rfl⟩ ?_
  intro ch l r l' s' hch h
  cases ch with
  | answer =>
    rw [exec, Server.create] at h
    split at h
    · next cur ho =>
      cases h
      exact hsome cur ho
    · next ho =>
      cases h
      exact hnone ho _ rfl
  | fault => exact hch.elim
  | late => exact hch.elim
  | _ => cases h

/-- An update of the object as it was read. -/
theorem meets_update {cur : LeaseObject} {k : Except ApiError Unit → Prog K8sSig α}
    (hvalid : invalid o = false) (hcur : s.objects.lookup o.name = some cur)
    (hrv : cur.resourceVersion = o.resourceVersion)
    (hk : ∀ s', Stores o s s' → (k (.ok ())).Meets apiServer Q s') :
    ((Leases.update o).bind k).Meets apiServer Q s := by
  refine meets_request hvalid ⟨.answer, _, trivial, rfl⟩ ?_
  intro ch l r l' s' hch h
  cases ch with
  | answer =>
    rw [exec, Server.update, hcur] at h
    dsimp only at h
    rw [if_pos hrv] at h
    cases h
    exact hk _ rfl
  | fault => exact hch.elim
  | late => exact hch.elim
  | _ => cases h

/-! ## The store -/

theorem holds_leaseFromRecord {ns : String} {v : Int} :
    Holds (leaseFromRecord r ns v) { r with version := v } where
  name := rfl
  annotations := ⟨∅, rfl⟩
  spec := rfl
  label := by rw [leaseFromRecord, AList.lookup_insert]

theorem holds_applyRecordToLease {v : Int} (hname : o.name = k8sLeaseName r.key) :
    Holds (applyRecordToLease o r v) { r with version := v } where
  name := hname
  annotations := ⟨o.annotations, rfl⟩
  spec := rfl
  label := by rw [applyRecordToLease, AList.lookup_insert]

/-- The API server takes the objects of proper records. -/
theorem Holds.valid (h : Holds o r) (hr : r.Proper) : invalid o = false := by
  have hname : isDNS1123Subdomain o.name = [] := by
    rw [h.name]
    exact isDNS1123Subdomain_k8sLeaseName hr.key
  have hdur : o.spec.leaseDurationSeconds.any (· ≤ 0) = false := by
    rw [h.spec]
    exact hr.leaseDuration.2
  have htoken : o.spec.leaseTransitions.any (· < 0) = false := by
    rw [h.spec]
    have hpos := hr.token.1
    simp only [specOf, Option.any_some, decide_eq_false_iff_not]
    omega
  rw [invalid, hname, hdur, htoken]
  rfl

theorem Shows.fetched_none (h : Shows s w) (hkey : validateKey key = .ok ())
    (hl : w.latest key = none) : fetched s (k8sLeaseName key) = .error .notFound := by
  rw [fetched, h.absent hkey hl]

theorem Shows.fetched_some (h : Shows s w) (hl : w.latest key = some r) :
    ∃ o, fetched s (k8sLeaseName key) = .ok o ∧
      s.objects.lookup (k8sLeaseName key) = some o ∧ Holds o r := by
  obtain ⟨o, ho, hholds⟩ := h.stored hl
  refine ⟨o, ?_, ho, hholds⟩
  rw [fetched, ho]

/-- What a call is to end with. -/
def Follows (w : Ledger) (c : StoreCall) (o : StoreOutcome) (s' : Server) : Prop :=
  Reads microTime (w.step c).1 o ∧ Shows s' (w.step c).2

theorem meets_getCall {ns : String} (h : Shows s w) (hkey : validateKey key = .ok ()) :
    (prog ns (.get key)).Meets apiServer (Follows w (.get key)) s := by
  refine Prog.Meets.bind (meets_get ?_)
  cases hl : w.latest key with
  | none =>
    rw [h.fetched_none hkey hl]
    refine ⟨?_, ?_⟩ <;> rw [Ledger.step, hl]
    · rfl
    · exact h
  | some r =>
    obtain ⟨o, hfetched, -, hholds⟩ := h.fetched_some hl
    rw [hfetched]
    show Follows w (.get key) (.record (recordFromLease o)) s
    rw [h.record hl hholds]
    refine ⟨?_, ?_⟩ <;> rw [Ledger.step, hl]
    · rfl
    · exact h

/-- An object that is listed. -/
theorem Shows.mem_select (h : Shows s w) :
    o ∈ s.select managedByLabel managedByValue ↔
      ∃ r, w.latest r.key = some r ∧ Holds o r ∧
        s.objects.lookup (k8sLeaseName r.key) = some o := by
  rw [Server.select, List.mem_filter, List.mem_map]
  constructor
  · rintro ⟨⟨⟨name, _⟩, hmem, rfl⟩, -⟩
    have ho := AList.mem_lookup_iff.mpr hmem
    obtain ⟨r, hr, rfl, hholds⟩ := h.known ho
    exact ⟨r, hr, hholds, ho⟩
  · rintro ⟨r, -, hholds, ho⟩
    refine ⟨⟨⟨_, o⟩, AList.mem_lookup_iff.mp ho, rfl⟩, ?_⟩
    rw [hholds.label]
    rfl

/-- Listed objects have names of their own. -/
theorem Shows.nodup_select (h : Shows s w) :
    ((s.select managedByLabel managedByValue).map LeaseObject.name).Nodup := by
  have hnames : (s.objects.entries.map (·.2)).map LeaseObject.name =
      s.objects.entries.map Sigma.fst := by
    rw [List.map_map]
    refine List.map_congr_left fun x hx => ?_
    obtain ⟨r, -, hname, hholds⟩ := h.known (AList.mem_lookup_iff.mpr hx)
    exact hholds.name.trans hname.symm
  have hsub := (List.filter_sublist (l := s.objects.entries.map (·.2))
    (p := fun o => o.labels.lookup managedByLabel == some managedByValue)).map LeaseObject.name
  rw [hnames] at hsub
  exact hsub.nodup s.objects.nodupKeys

/-- The records read from some objects. -/
def readAll (items : List LeaseObject) : List Record :=
  items.filterMap fun l => (recordFromLease l).toOption

theorem Shows.reads (h : Shows s w) (ho : o ∈ s.select managedByLabel managedByValue) :
    ∃ r, w.latest r.key = some r ∧ o.name = k8sLeaseName r.key ∧
      (recordFromLease o).toOption = some (r.kept microTime) := by
  obtain ⟨r, hr, hholds, -⟩ := h.mem_select.mp ho
  refine ⟨r, hr, hholds.name, ?_⟩
  rw [h.record hr hholds]
  rfl

theorem Shows.nodup_readAll (h : Shows s w) :
    (readAll (s.select managedByLabel managedByValue)).Nodup := by
  refine List.Nodup.of_map (fun r => k8sLeaseName r.key) ?_
  have hnames : (readAll (s.select managedByLabel managedByValue)).map
      (fun r => k8sLeaseName r.key) =
        (s.select managedByLabel managedByValue).map LeaseObject.name := by
    rw [readAll, List.map_filterMap, ← List.filterMap_eq_map]
    refine List.filterMap_congr fun o ho => ?_
    obtain ⟨r, -, hname, hread⟩ := h.reads ho
    rw [hread]
    exact congrArg some hname.symm
  rw [hnames]
  exact h.nodup_select

/-- The listing is the last record of every key. -/
theorem Shows.perm (h : Shows s w) :
    (readAll (s.select managedByLabel managedByValue)).Perm
      (w.current.map (Record.kept microTime)) := by
  refine (List.perm_ext_iff_of_nodup h.nodup_readAll Ledger.nodup_kept).mpr fun r' => ?_
  rw [readAll, List.mem_filterMap, List.mem_map]
  constructor
  · rintro ⟨o, ho, hread'⟩
    obtain ⟨r, hr, -, hread⟩ := h.reads ho
    rw [hread, Option.some.injEq] at hread'
    exact ⟨r, Ledger.mem_current_iff.mpr hr, hread'⟩
  · rintro ⟨r, hr, rfl⟩
    have hl := Ledger.mem_current_iff.mp hr
    obtain ⟨o, ho, hholds⟩ := h.stored hl
    refine ⟨o, h.mem_select.mpr ⟨r, hl, hholds, ho⟩, ?_⟩
    rw [h.record hl hholds]
    rfl

theorem meets_listCall {ns : String} (h : Shows s w) :
    (prog ns .list).Meets apiServer (Follows w .list) s := by
  refine Prog.Meets.bind (meets_list fun items hitems => ?_)
  exact ⟨⟨readAll items, rfl, (hitems.filterMap _).trans h.perm⟩, h⟩

theorem Follows.stored {v : Int} {rec : Record} (h : Shows s w) (hrec : rec.Proper)
    (hlt : (w.length : Int) < maxInt64) (hv : v = w.version rec.key)
    (ho : Holds o { rec with version := v + 1 }) (hs : Stores o s s') :
    Follows w (.put v rec) (.done (.ok ())) s' := by
  rw [Follows, Ledger.step_put hv]
  exact ⟨rfl, h.write hrec hlt hv ho hs⟩

theorem Follows.conflict {v : Int} {rec : Record} (h : Shows s w) (hv : v ≠ w.version rec.key) :
    Follows w (.put v rec) (.done (.error errConflict)) s := by
  rw [Follows, Ledger.step_put_conflict hv]
  exact ⟨rfl, h⟩

theorem meets_create_put {ns : String} {rec : Record} (h : Shows s w) (hrec : rec.Proper)
    (hlt : (w.length : Int) < maxInt64) :
    (K8sLeaseStore.put ns 0 rec).Meets apiServer (fun r => Follows w (.put 0 rec) (.done r)) s := by
  rw [K8sLeaseStore.put, if_pos rfl]
  have hholds : Holds (leaseFromRecord rec ns 1) { rec with version := 0 + 1 } :=
    holds_leaseFromRecord
  refine meets_create (hholds.valid ⟨hrec.key, hrec.ttl, hrec.token⟩) ?_ ?_
  · intro ho s' hs'
    have hl : w.latest rec.key = none := (h.absent_iff hrec.key).mp ho
    exact Follows.stored h hrec hlt (Ledger.version_of_none hl).symm hholds hs'
  · intro cur ho
    obtain ⟨r, hr, hname, -⟩ := h.known ho
    have hkey : rec.key = r.key :=
      k8sLeaseName_inj (dot_not_mem_ns hrec.key) (dot_not_mem_ns (h.sound.latest hr).1.key) hname
    have hpos := (h.sound.latest hr).2.1
    refine Follows.conflict h ?_
    rw [hkey, Ledger.version_of_latest hr]
    omega

theorem meets_update_put {ns : String} {v : Int} {rec : Record} (h : Shows s w)
    (hrec : rec.Proper) (hlt : (w.length : Int) < maxInt64) (hv : v ≠ 0) :
    (K8sLeaseStore.put ns v rec).Meets apiServer (fun r => Follows w (.put v rec) (.done r)) s := by
  rw [K8sLeaseStore.put, if_neg hv, K8sLeaseStore.maxPutUpdateAttempts, K8sLeaseStore.putLoop]
  refine meets_ctxErr (meets_get ?_)
  cases hl : w.latest rec.key with
  | none =>
    rw [h.fetched_none hrec.key hl]
    refine Follows.conflict h ?_
    rw [Ledger.version_of_none hl]
    exact hv
  | some r =>
    obtain ⟨cur, hfetched, hcur, hholds⟩ := h.fetched_some hl
    obtain ⟨-, hpos, hle⟩ := h.sound.latest hl
    rw [hfetched]
    dsimp only
    rw [h.version hl hholds]
    have hversion := Ledger.version_of_latest hl
    split
    · next hne => exact Follows.conflict h (hversion ▸ Ne.symm hne)
    rename_i heq
    have hname : cur.name = k8sLeaseName rec.key := by
      rw [hholds.name, (Ledger.latest_eq_some hl).2]
    have hnext : toInt64 (v + 1) = v + 1 :=
      toInt64_of_range (by unfold maxInt64; omega) (by omega)
    rw [hnext]
    have hnew : Holds (applyRecordToLease cur rec (v + 1)) { rec with version := v + 1 } :=
      holds_applyRecordToLease hname
    have hsame : s.objects.lookup (applyRecordToLease cur rec (v + 1)).name = some cur := by
      rw [hnew.name]
      exact hcur
    have hvalid := hnew.valid ⟨hrec.key, hrec.ttl, hrec.token⟩
    refine meets_update hvalid hsame rfl fun s' hs' => ?_
    exact Follows.stored h hrec hlt (by omega) hnew hs'

theorem meets_prog {ns : String} {c : StoreCall} (h : Shows s w) (hc : w.Takes c) :
    (prog ns c).Meets apiServer (Follows w c) s := by
  cases c with
  | get key => exact meets_getCall h hc.1
  | list => exact meets_listCall h
  | put v rec =>
    refine Prog.Meets.bind ?_
    by_cases hv : v = 0
    · subst hv
      exact meets_create_put h hc.1 hc.2
    · exact meets_update_put h hc.1 hc.2 hv

theorem simulates (ns : String) :
    Simulates (call ns) Ledger.step Ledger.Takes Shows (Reads microTime) where
  returns hc h := (meets_prog h hc).exists_served
  follows hc h hcall := (meets_prog h hc).of_served hcall

theorem shows_nil {revision : Nat} :
    Shows { objects := ∅, revision := revision, log := [] } [] where
  stored := by
    intro key r hr
    cases hr
  known := by
    intro name o ho
    rw [AList.lookup_empty] at ho
    cases ho
  sound := by
    intro r hr
    cases hr
  counted := by decide

end K8s

end Berth.Lease
