/-
Berth.Lease.BackendTheorems — the storage backends agree.

The SQL store is the last backend to follow a ledger: the row of a key is
that of its last record. Together with the
memory store and the Kubernetes store this gives the agreement of all
three, call by call, along any program of calls.
-/
import Berth.Checks.First
import Berth.Lease.K8sLedgerTheorems
import Berth.Lease.RowTheorems
import Mathlib.Data.List.Perm.Basic

namespace Berth.Lease

open Berth.Interleave

open K8s (StoreCall StoreOutcome)

variable {r r' : Record} {key : Key} {driver : Driver}

/-! ## Rows -/

namespace SqlStore

open Sql

variable {e : Engine driver} {s s' : Database} {w : Ledger} {α : Type} {Q : α → Database → Prop}

/-- The row of a record. -/
def rowOf (e : Engine driver) (r : Record) : Row :=
  e.row r.key.ns r.key.name (recordUpdateArgs e.dialect r) r.version

/-- The row of a key is that of its last record. -/
structure Shows (e : Engine driver) (s : Database) (w : Ledger) : Prop where
  idle : s.tx = none
  distinct : Distinct s.rows
  selected : ∀ key, rowAt s.rows key = (w.latest key).map (rowOf e)
  sound : w.Sound

/-- A time column reads back as what the backend keeps. -/
theorem parseTime_keep (e : Engine driver) (t : Time) :
    parseTime e.text (e.keep (e.dialect.timeValue t)) = .ok ((Backend.sql driver e).keeps t) := by
  rw [Engine.dialect, e.column_keeps]
  cases driver with
  | postgres => exact congrArg Except.ok (truncate_microsecond t)
  | mysql => exact congrArg Except.ok (truncate_microsecond t)
  | sqlite =>
    show parseTimeString e.text (e.text.format rfc3339Nano t) = .ok t
    rw [parseTimeString, layouts, List.findSome?_cons, e.text_reads]

theorem milliseconds_proper (h : r.Proper) : milliseconds r.ttl * millisecond = r.ttl := by
  rcases h.ttl with ⟨n, -, -, hn⟩ | ⟨-, hzero⟩
  · have hms : r.ttl = n * 1000 * millisecond := by
      rw [hn, Int.mul_assoc]
      rfl
    rw [hms, milliseconds, Int.mul_tdiv_cancel _ (by decide)]
  · rw [hzero]
    rfl

/-- The row of a proper record is read back. -/
theorem scanRecord_rowOf (h : r.Proper) :
    scanRecord e.text (rowOf e r) = .ok (r.kept (Backend.sql driver e).keeps) := by
  have htoken : ¬ (r.fencingToken < -maxInt32 - 1 ∨ maxInt32 < r.fencingToken) := by
    obtain ⟨h₁, h₂⟩ := h.token
    unfold maxInt32 at *
    omega
  simp only [scanRecord, rowOf, Engine.row, recordUpdateArgs, if_neg htoken, parseTime_keep,
    milliseconds_proper h]
  rfl

/-! ## Statements -/

theorem meets_begin {readOnly : Bool} {k : Except DbErr Unit → Prog SqlSig α}
    (hk : (k (.ok ())).Meets e.serve Q { s with tx := some ⟨readOnly, s.rows⟩ }) :
    ((Tx.begin readOnly).bind k).Meets e.serve Q s :=
  Prog.Meets.op (fun _ _ => Iff.rfl) hk

theorem meets_query {q : Query} {k : Except DbErr Rows → Prog SqlSig α}
    (hk : ∀ rows, rows.Perm (q.select s.view) → (k (.ok ⟨rows, none⟩)).Meets e.serve Q s) :
    ((Tx.query q).bind k).Meets e.serve Q s := by
  refine ⟨⟨_, _, ⟨_, .refl _, rfl⟩, rfl⟩, ?_⟩
  rintro r s' ⟨⟨rows, hrows, rfl⟩, rfl⟩
  exact hk rows hrows

theorem meets_exec {rows rows' : List Row} {st : Statement} {n : Nat}
    {k : Except DbErr (Except DbErr Nat) → Prog SqlSig α} (hs : s.tx = some ⟨false, rows⟩)
    (hrun : e.run rows st = .ok (n, rows'))
    (hk : (k (.ok (.ok n))).Meets e.serve Q { s with tx := some ⟨false, rows'⟩ }) :
    ((Tx.exec st).bind k).Meets e.serve Q s := by
  refine Prog.Meets.op (fun r s' => ?_) hk
  simp only [Engine.serve, hs, hrun, Bool.false_eq_true, if_false]

theorem meets_exec_error {rows : List Row} {st : Statement} {err : DbErr}
    {k : Except DbErr (Except DbErr Nat) → Prog SqlSig α} (hs : s.tx = some ⟨false, rows⟩)
    (hrun : e.run rows st = .error err) (hk : (k (.error err)).Meets e.serve Q s) :
    ((Tx.exec st).bind k).Meets e.serve Q s := by
  refine Prog.Meets.op (fun r s' => ?_) hk
  simp only [Engine.serve, hs, hrun, Bool.false_eq_true, if_false]

theorem meets_commit {tx : Transaction} {k : Except DbErr Unit → Prog SqlSig α}
    (hs : s.tx = some tx) (hk : (k (.ok ())).Meets e.serve Q ⟨tx.rows, none⟩) :
    (Tx.commit.bind k).Meets e.serve Q s := by
  refine Prog.Meets.op (fun r s' => ?_) hk
  simp only [Engine.serve, hs]

/-- Whatever happened in the transaction, it is over. -/
theorem meets_deferRollback {body : Prog SqlSig α}
    (h : body.Meets e.serve (fun r s' => Q r { s' with tx := none }) s) :
    (deferRollback body).Meets e.serve Q s := by
  refine Prog.Meets.bind (h.mono fun r s' hQ => ?_)
  exact Prog.Meets.op (fun _ _ => Iff.rfl) hQ

/-! ## Calls -/

/-- What a call is to end with. -/
def Follows (e : Engine driver) (w : Ledger) (c : StoreCall) (o : StoreOutcome) (s' : Database) :
    Prop :=
  Reads (Backend.sql driver e).keeps (w.step c).1 o ∧ Shows e s' (w.step c).2

theorem Shows.ended (h : Shows e s w) : Shows e ⟨s.rows, none⟩ w :=
  ⟨rfl, h.distinct, h.selected, h.sound⟩

theorem meets_getCall (h : Shows e s w) (key : Key) :
    (prog e (.get key)).Meets e.serve (Follows e w (.get key)) s := by
  refine Prog.Meets.bind (meets_begin (meets_deferRollback (Prog.Meets.bind ?_)))
  refine meets_query fun rows hrows => ?_
  have hselect : rows.Perm ((w.latest key).map (rowOf e)).toList := by
    rw [← h.selected key, ← select_get h.distinct]
    exact hrows
  cases hl : w.latest key with
  | none =>
    rw [hl] at hselect
    obtain rfl := hselect.eq_nil
    refine ⟨?_, ?_⟩ <;> rw [Ledger.step, hl]
    · rfl
    · exact h.ended
  | some r =>
    rw [hl] at hselect
    obtain rfl := List.perm_singleton.mp hselect
    dsimp only
    rw [scanRecord_rowOf (h.sound.latest hl).1]
    refine meets_commit rfl ?_
    refine ⟨?_, ?_⟩ <;> rw [Ledger.step, hl]
    · rfl
    · exact h.ended

theorem nodup_rowsOf : (w.current.map (rowOf e)).Nodup := by
  refine List.Nodup.of_map (fun row => (⟨row.ns, row.name⟩ : Key)) ?_
  rw [List.map_map]
  exact Ledger.nodup_current

theorem Shows.perm (h : Shows e s w) : s.rows.Perm (w.current.map (rowOf e)) := by
  have hnodup : s.rows.Nodup := .of_map _ (distinct_iff.mp h.distinct)
  refine (List.perm_ext_iff_of_nodup hnodup nodup_rowsOf).mpr fun row => ?_
  have hmem : row ∈ s.rows ↔ rowAt s.rows row.key = some row := by
    rw [rowAt_eq_some_iff h.distinct, and_iff_left rfl]
  rw [hmem, h.selected, Option.map_eq_some_iff, List.mem_map]
  refine exists_congr fun r => ?_
  rw [Ledger.mem_current_iff, and_congr_left_iff]
  rintro rfl
  exact Iff.rfl

/-- All rows are read, in the order in which they come. -/
theorem Shows.scan (h : Shows e s w) {rows : List Row} (hrows : rows.Perm s.rows) :
    ∃ out, rows.mapM (scanRecord e.text) = .ok out ∧
      out.Perm (w.current.map (Record.kept (Backend.sql driver e).keeps)) := by
  have hscan : List.Forall₂ (fun row r => scanRecord e.text row = .ok r)
      (w.current.map (rowOf e)) (w.current.map (Record.kept (Backend.sql driver e).keeps)) := by
    rw [List.forall₂_map_left_iff, List.forall₂_map_right_iff, List.forall₂_same]
    intro r hr
    exact scanRecord_rowOf (h.sound.latest (Ledger.mem_current_iff.mp hr)).1
  obtain ⟨out, hout, hperm⟩ := List.perm_comp_forall₂ (hrows.trans h.perm) hscan
  exact ⟨out, Checks.mapM_eq_ok.mpr hout, hperm⟩

theorem meets_listCall (h : Shows e s w) :
    (prog e .list).Meets e.serve (Follows e w .list) s := by
  refine Prog.Meets.bind (meets_begin (meets_deferRollback (meets_query fun rows hrows => ?_)))
  obtain ⟨out, hscan, hperm⟩ := h.scan hrows
  dsimp only
  rw [hscan]
  refine meets_commit rfl ?_
  exact ⟨⟨out, rfl, hperm⟩, h.ended⟩

/-! ## Writes -/

section Writes

variable {rec : Record} {v : Int}

theorem Follows.conflict (h : Shows e s w) (hv : v ≠ w.version rec.key) :
    Follows e w (.put v rec) (.done (.error errConflict)) ⟨s.rows, none⟩ := by
  rw [Follows, Ledger.step_put_conflict hv]
  exact ⟨rfl, h.ended⟩

/-- The statement of a Put finds what it expects if the ledger lets the Put
through. -/
theorem Shows.expects_iff (h : Shows e s w) :
    Expects v (rowAt s.rows key) ↔ v = w.version key := by
  rw [h.selected]
  cases hl : w.latest key with
  | none =>
    rw [Ledger.version_of_none hl]
    by_cases hv : v = 0 <;> simp [Expects, hv]
  | some r =>
    have hpos := (h.sound.latest hl).2.1
    have hversion : (rowOf e r).version = r.version := rfl
    rw [Ledger.version_of_latest hl]
    by_cases hv : v = 0
    · simp only [Expects, if_pos hv, Option.map_some, reduceCtorEq, false_iff]
      omega
    · simp [Expects, hv, hversion, eq_comm]

theorem Follows.stored (h : Shows e s w) (hrec : rec.Proper) (hv : v = w.version rec.key)
    {rows : List Row} (hdistinct : Distinct rows)
    (hrows : ∀ k, rowAt rows k = if k = rec.key then some (putRow e v rec) else rowAt s.rows k) :
    Follows e w (.put v rec) (.done (.ok ())) ⟨rows, none⟩ := by
  rw [Follows, Ledger.step_put hv]
  refine ⟨rfl, rfl, hdistinct, fun key => ?_, h.sound.cons hrec hv⟩
  rw [hrows, Ledger.latest_written]
  split
  · rfl
  · exact h.selected key

/-- The execution of a Put and what follows. -/
theorem meets_putExec {st : Statement}
    {k : Except DbErr (Except DbErr Nat) → Prog SqlSig (Except Err Unit)}
    (h : Shows e s w) (hrec : rec.Proper) (hst : Asks e v rec st)
    (hok : ∀ n, k (.ok (.ok n)) = settle rec (.ok n))
    (hdup : (∃ ns name args, st = .insert .fail ns name args) →
      k (.error e.duplicate) = .ret (.error errConflict)) :
    ((Tx.exec st).bind k).Meets e.serve
      (fun r s' => Follows e w (.put v rec) (.done r) { s' with tx := none })
      { s with tx := some ⟨false, s.rows⟩ } := by
  have hfits : Fits s.rows st ↔ v = w.version rec.key := by
    rw [Fits, hst.key, hst.finds, h.expects_iff]
  by_cases hv : v = w.version rec.key
  · obtain ⟨rows, hrun, hdistinct, hrows⟩ := run_fits (e := e) h.distinct (hfits.mpr hv)
    refine meets_exec rfl hrun ?_
    rw [hok]
    refine meets_commit rfl (Follows.stored h hrec hv hdistinct fun k => ?_)
    rw [hrows, hst.key, hst.row]
  · have hconflict := Follows.conflict h hv
    rcases run_unfit (e := e) h.distinct (mt hfits.mp hv) with ⟨hfail, hrun⟩ | ⟨rows, hrun⟩
    · refine meets_exec_error rfl hrun ?_
      rw [hdup hfail]
      exact hconflict
    · refine meets_exec rfl hrun ?_
      rw [hok]
      exact hconflict

theorem meets_put (h : Shows e s w) (hrec : rec.Proper) :
    (put e.dialect v rec).Meets e.serve (fun r => Follows e w (.put v rec) (.done r)) s := by
  refine meets_begin (meets_deferRollback ?_)
  unfold putTx
  split
  · next hv =>
    subst hv
    refine meets_putExec h hrec (asks_insert e rec) (fun _ => rfl) fun hfail => ?_
    rcases insertSQL_cases e with hskip | ⟨-, hnumber⟩
    · obtain ⟨ns, name, args, heq⟩ := hfail
      rw [hskip] at heq
      cases heq
    · have hknown : e.dialect.duplicateKey.any (· e.duplicate) = true := by
        rw [hnumber, Option.any_some, isMySQLDuplicateKey, e.duplicate_number]
        rfl
      exact if_pos hknown
  · next hv =>
    refine meets_putExec h hrec (asks_update hv) (fun _ => rfl) fun hfail => ?_
    obtain ⟨ns, name, args, heq⟩ := hfail
    cases heq

end Writes

theorem meets_prog {c : StoreCall} (h : Shows e s w) (hc : c.Proper) :
    (prog e c).Meets e.serve (Follows e w c) s := by
  cases c with
  | get key => exact meets_getCall h key
  | list => exact meets_listCall h
  | put v rec => exact Prog.Meets.bind (meets_put h hc)

theorem simulates (e : Engine driver) :
    Simulates (call e) Ledger.step Ledger.Takes (Shows e)
      (Reads (Backend.sql driver e).keeps) where
  returns hc h := (meets_prog h hc.1).exists_served
  follows hc h hcall := (meets_prog h hc.1).of_served hcall

theorem shows_nil : Shows e .new [] where
  idle := rfl
  distinct := .nil
  selected := fun _ => rfl
  sound := by
    intro r hr
    cases hr

end SqlStore

/-! ## Agreement -/

/-- The storage backends agree. Any sequence of fewer than 2^63 calls about
accepted keys and proper records (a version is an `int64`), made to any
backend from an empty store, gets answers, and they are those of the
ledger: the same successes, the same `ErrNotFound` and `ErrConflict`, and
the same records at the same versions with the times that were written,
floored to the microsecond in Kubernetes, PostgreSQL and MySQL and exact
in memory and SQLite. -/
theorem backends_agree (calls : List StoreCall) (h : ∀ c ∈ calls, c.Proper)
    (hlen : (calls.length : Int) ≤ maxInt64) (b : Backend) :
    (∃ outs, b.Runs calls outs) ∧
      ∀ outs, b.Runs calls outs → List.Forall₂ (Reads b.keeps) (answers calls) outs := by
  have htakes : Along Ledger.step Ledger.Takes [] calls :=
    Ledger.along_takes h (by simpa using hlen)
  cases b with
  | memory =>
    exact ⟨MemStore.simulates.exists_runs MemStore.shows_nil htakes,
      fun _ hruns => MemStore.simulates.forall₂ MemStore.shows_nil htakes hruns⟩
  | kubernetes ns revision =>
    exact ⟨(K8s.simulates ns).exists_runs K8s.shows_nil htakes,
      fun _ hruns => (K8s.simulates ns).forall₂ K8s.shows_nil htakes hruns⟩
  | sql driver e =>
    exact ⟨(SqlStore.simulates e).exists_runs SqlStore.shows_nil htakes,
      fun _ hruns => (SqlStore.simulates e).forall₂ SqlStore.shows_nil htakes hruns⟩

/-- A text for instants that reads back. -/
def sampleText : TimeText where
  format _ t := formatInt (if 0 ≤ t then 2 * t else -2 * t - 1)
  parse _ s := (parseDecimal s).map fun n => if n % 2 = 0 then n / 2 else -((n + 1) / 2)

theorem sampleText_reads (layout : String) (t : Time) :
    sampleText.parse layout (sampleText.format layout t) = some t := by
  have h : ∀ n : Int, (parseDecimal (formatInt (if 0 ≤ n then 2 * n else -2 * n - 1))).map
      (fun n => if n % 2 = 0 then n / 2 else -((n + 1) / 2)) = some n := by
    intro n
    rw [parseDecimal_formatInt (by split <;> omega), Option.map_some, Option.some.injEq]
    split <;> split <;> omega
  exact h t

def sampleEngine (driver : Driver) : Engine driver where
  text := sampleText
  keep := id
  duplicate := ⟨some 1062, "Duplicate entry"⟩
  failed := ⟨none, "bad connection"⟩
  foundRows := false
  text_reads := sampleText_reads rfc3339Nano
  column_keeps _ := rfl
  duplicate_number := rfl

/-- A lease of 30 seconds, taken 1234567 nanoseconds after the epoch. -/
def sampleHeld : Record :=
  { key := ⟨"tenant-a", "ingest"⟩, holder := "cluster-east", ttl := 30 * second
    acquiredAt := 1234567, renewedAt := 1234567, fencingToken := 1, version := 999 }

/-- The same lease, released. -/
def sampleReleased : Record := { sampleHeld with holder := "", ttl := 0 }

def sampleCalls : List StoreCall :=
  [.get sampleHeld.key, .put 0 sampleHeld, .put 0 sampleHeld, .get sampleHeld.key,
   .put 1 sampleReleased, .list]

theorem backends_agree_released :
    answers sampleCalls = [.record (.error errNotFound), .done (.ok ()),
      .done (.error errConflict), .record (.ok { sampleHeld with version := 1 }), .done (.ok ()),
      .records (.ok [{ sampleReleased with version := 2 }])] ∧
    ∃ outs, (Backend.sql .mysql (sampleEngine .mysql)).Runs sampleCalls outs ∧
      List.Forall₂ (Reads microTime) (answers sampleCalls) outs := by
  have hkey : validateKey sampleHeld.key = .ok () := by decide
  have hheld : sampleHeld.Proper := ⟨hkey, .inl ⟨30, by decide, by decide, rfl⟩, by decide⟩
  have hreleased : sampleReleased.Proper := ⟨hkey, .inr ⟨rfl, rfl⟩, by decide⟩
  have hproper : ∀ c ∈ sampleCalls, c.Proper := by
    simp only [sampleCalls, List.forall_mem_cons, List.not_mem_nil, false_implies, implies_true]
    exact ⟨hkey, hheld, hheld, hkey, hreleased, trivial, trivial⟩
  obtain ⟨⟨outs, hruns⟩, hagree⟩ :=
    backends_agree sampleCalls hproper (by decide) (.sql .mysql (sampleEngine .mysql))
  exact ⟨rfl, outs, hruns, hagree outs hruns⟩

end Berth.Lease
