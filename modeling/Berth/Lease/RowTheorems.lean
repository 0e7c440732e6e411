/-
Berth.Lease.RowTheorems — what a statement of the store does to the rows.

A statement `Fits` the rows if it finds what it expects: an insert no row,
an update a row at its version. A statement that fits writes its row and
no other (`run_fits`), any other affects nothing (`run_unfit`). `Asks` is
what makes a statement the one of a Put.
-/
import Berth.Lease.Database

namespace Berth.Lease.Sql

variable {driver : Driver} {e : Engine driver} {rows : List Row} {row : Row} {key : Key}
variable {v : Int} {rec : Record}

/-! ## The row of a key -/

theorem isAt_eq (row : Row) (key : Key) : row.isAt key.ns key.name = decide (row.key = key) := by
  rw [Bool.eq_iff_iff, decide_eq_true_iff, Row.isAt, Row.key, Bool.and_eq_true, beq_iff_eq,
    beq_iff_eq]
  obtain ⟨ns, name⟩ := key
  rw [Key.mk.injEq]

theorem mem_of_rowAt (h : rowAt rows key = some row) : row ∈ rows ∧ row.key = key := by
  have hkey := List.find?_some h
  exact ⟨List.mem_of_find?_eq_some h, by simpa using hkey⟩

/-- A key has at most one row. -/
theorem rowAt_of_mem (h : Distinct rows) (hrow : row ∈ rows) : rowAt rows row.key = some row := by
  induction rows with
  | nil => cases hrow
  | cons r rows ih =>
    obtain ⟨hr, hrows⟩ := List.pairwise_cons.mp h
    rw [rowAt, List.find?_cons]
    rcases List.mem_cons.mp hrow with rfl | hrow
    · simp
    · simp only [decide_eq_false (hr row hrow)]
      exact ih hrows hrow

theorem filter_key (h : Distinct rows) (key : Key) :
    rows.filter (fun row => row.key = key) = (rowAt rows key).toList := by
  induction rows with
  | nil => rfl
  | cons r rows ih =>
    obtain ⟨hr, hrows⟩ := List.pairwise_cons.mp h
    rw [rowAt, List.find?_cons, List.filter_cons]
    by_cases hkey : r.key = key
    · have hrest : rows.filter (fun row => row.key = key) = [] := by
        simp only [List.filter_eq_nil_iff, decide_eq_true_iff]
        intro row hrow heq
        exact hr row hrow (hkey.trans heq.symm)
      simp [hkey, hrest]
    · simpa [hkey, rowAt] using ih hrows

theorem select_get (h : Distinct rows) (key : Key) :
    (Query.get key.ns key.name).select rows = (rowAt rows key).toList := by
  rw [← filter_key h key, Query.select]
  simp only [isAt_eq]

theorem rowAt_eq_some_iff (h : Distinct rows) :
    rowAt rows key = some row ↔ row ∈ rows ∧ row.key = key := by
  constructor
  · exact mem_of_rowAt
  · rintro ⟨hrow, rfl⟩
    exact rowAt_of_mem h hrow

theorem any_isAt (rows : List Row) (key : Key) :
    (rows.any fun row => row.isAt key.ns key.name) = (rowAt rows key).isSome := by
  rw [Bool.eq_iff_iff, rowAt, List.find?_isSome, List.any_eq_true]
  simp only [isAt_eq]

theorem distinct_iff : Distinct rows ↔ (rows.map Row.key).Nodup := by
  rw [List.Nodup, List.pairwise_map]
  rfl

/-- Writing over a row keeps the others. -/
theorem rowAt_map (new : Row) (h : Distinct rows) (hrow : rowAt rows new.key = some row) :
    Distinct (rows.map fun r => if r.key = new.key then new else r) ∧
      ∀ k, rowAt (rows.map fun r => if r.key = new.key then new else r) k =
        if k = new.key then some new else rowAt rows k := by
  have hdistinct : Distinct (rows.map fun r => if r.key = new.key then new else r) := by
    have hkeys : (rows.map fun r => if r.key = new.key then new else r).map Row.key =
        rows.map Row.key := by
      rw [List.map_map]
      refine List.map_congr_left fun r _ => ?_
      by_cases hr : r.key = new.key <;> simp [hr]
    rw [distinct_iff, hkeys]
    exact distinct_iff.mp h
  refine ⟨hdistinct, fun k => Option.ext fun r => ?_⟩
  rw [rowAt_eq_some_iff hdistinct, List.mem_map]
  by_cases hk : k = new.key
  · rw [if_pos hk, Option.some.injEq]
    constructor
    · rintro ⟨⟨r', -, rfl⟩, hr⟩
      by_cases hr' : r'.key = new.key
      · rw [if_pos hr']
      · rw [if_neg hr', hk] at hr
        exact absurd hr hr'
    · rintro rfl
      obtain ⟨hmem, hkey⟩ := mem_of_rowAt hrow
      exact ⟨⟨row, hmem, if_pos hkey⟩, hk.symm⟩
  · rw [if_neg hk, rowAt_eq_some_iff h]
    constructor
    · rintro ⟨⟨r', hr', rfl⟩, hr⟩
      by_cases hkey : r'.key = new.key
      · rw [if_pos hkey] at hr
        exact absurd hr.symm hk
      · rw [if_neg hkey] at hr ⊢
        exact ⟨hr', hr⟩
    · rintro ⟨hr, hkey⟩
      have hne : r.key ≠ new.key := fun heq => hk (hkey.symm.trans heq)
      exact ⟨⟨r, hr, if_neg hne⟩, hkey⟩

theorem rowAt_append (new : Row) (h : Distinct rows) (hrow : rowAt rows new.key = none) :
    Distinct (rows ++ [new]) ∧
      ∀ k, rowAt (rows ++ [new]) k = if k = new.key then some new else rowAt rows k := by
  have hfree : ∀ r ∈ rows, r.key ≠ new.key := by
    intro r hr heq
    rw [← heq, rowAt_of_mem h hr] at hrow
    cases hrow
  refine ⟨List.pairwise_append.mpr ⟨h, List.pairwise_singleton _ _, ?_⟩, fun k => ?_⟩
  · intro r hr r' hr'
    rw [List.mem_singleton.mp hr']
    exact hfree r hr
  · by_cases hk : k = new.key
    · subst hk
      rw [rowAt, List.find?_append, ← rowAt, hrow, if_pos rfl]
      simp
    · have hlast : ([new].find? fun r => decide (r.key = k)) = none := by
        simp [Ne.symm hk]
      rw [rowAt, List.find?_append, hlast, Option.or_none, if_neg hk]
      rfl

/-! ## Statements -/

/-- The row that was there is the one a statement expects. -/
def Finds : Statement → Option Row → Prop
  | .insert _ _ _ _, o => o = none
  | .update _ _ _ version, o => ∃ row, o = some row ∧ row.version = version

/-- The statement finds what it expects. -/
def Fits (rows : List Row) (st : Statement) : Prop := Finds st (rowAt rows st.key)

theorem key_row (st : Statement) : (st.row e).key = st.key := by
  cases st <;> rfl

/-- The rows an update affects. -/
def affected (e : Engine driver) (rows : List Row) (args : RowArgs) (ns name : String)
    (version : Int) : List Row :=
  rows.filter fun r => (r.isAt ns name && r.version == version) &&
    (e.foundRows || e.row r.ns r.name args (r.version + 1) != r)

/-- A statement that fits writes its row. -/
theorem run_fits {st : Statement} (h : Distinct rows) (hfits : Fits rows st) :
    ∃ rows', e.run rows st = .ok (1, rows') ∧ Distinct rows' ∧
      ∀ k, rowAt rows' k = if k = st.key then some (st.row e) else rowAt rows k := by
  cases st with
  | insert onDuplicate ns name args =>
    have hnone : rowAt rows ⟨ns, name⟩ = none := hfits
    have hany : (rows.any fun row => row.isAt ns name) = false := by
      rw [any_isAt rows ⟨ns, name⟩, hnone]
      rfl
    refine ⟨rows ++ [e.row ns name args 1], ?_, rowAt_append (e.row ns name args 1) h hnone⟩
    simp only [Engine.run, hany, Bool.false_eq_true, if_false]
  | update args ns name version =>
    obtain ⟨row, hrow, hversion⟩ := hfits
    have hthe : ∀ r ∈ rows, r.key = ⟨ns, name⟩ → r = row := by
      intro r hr hkey
      have heq : rowAt rows ⟨ns, name⟩ = some r := hkey ▸ rowAt_of_mem h hr
      exact Option.some.inj (heq.symm.trans hrow)
    -- the predicate picks the row of the key
    have hhit : ∀ r ∈ rows,
        (r.isAt ns name && r.version == version) = decide (r.key = ⟨ns, name⟩) := by
      intro r hr
      rw [isAt_eq r ⟨ns, name⟩]
      by_cases hkey : r.key = ⟨ns, name⟩
      · simp [hthe r hr hkey, hversion]
      · simp [hkey]
    have hcount : (affected e rows args ns name version).length = 1 := by
      have hsame : affected e rows args ns name version =
          rows.filter fun r => r.key = ⟨ns, name⟩ := by
        refine List.filter_congr fun r hr => ?_
        have hnew : (e.row r.ns r.name args (r.version + 1) != r) = true := by
          rw [bne_iff_ne]
          intro heq
          have : r.version + 1 = r.version := congrArg Row.version heq
          omega
        rw [hhit r hr, hnew, Bool.or_true, Bool.and_true]
      rw [hsame, filter_key h, show rowAt rows ⟨ns, name⟩ = some row from hrow]
      rfl
    have hmap : (rows.map fun r => if (r.isAt ns name && r.version == version) = true then
        e.row r.ns r.name args (r.version + 1) else r) =
        rows.map fun r => if r.key = (e.row ns name args (version + 1)).key then
          e.row ns name args (version + 1) else r := by
      refine List.map_congr_left fun r hr => ?_
      rw [hhit r hr, show (e.row ns name args (version + 1)).key = ⟨ns, name⟩ from rfl]
      by_cases hkey : r.key = ⟨ns, name⟩
      · have hns : r.ns = ns := congrArg Key.ns hkey
        have hname : r.name = name := congrArg Key.name hkey
        rw [if_pos (decide_eq_true hkey), if_pos hkey, hns, hname, hthe r hr hkey, hversion]
      · rw [if_neg (by simp [hkey]), if_neg hkey]
    refine ⟨_, ?_, rowAt_map (e.row ns name args (version + 1)) h hrow⟩
    show Except.ok ((affected e rows args ns name version).length, _) = _
    rw [hcount, hmap]

/-- Any other statement affects nothing, or reports a duplicate key. -/
theorem run_unfit {st : Statement} (h : Distinct rows) (hfits : ¬ Fits rows st) :
    (∃ ns name args, st = .insert .fail ns name args) ∧ e.run rows st = .error e.duplicate ∨
      ∃ rows', e.run rows st = .ok (0, rows') := by
  cases st with
  | insert onDuplicate ns name args =>
    have hany : (rows.any fun row => row.isAt ns name) = true := by
      rw [any_isAt rows ⟨ns, name⟩, Option.isSome_iff_ne_none]
      exact hfits
    cases onDuplicate with
    | fail =>
      left
      exact ⟨⟨ns, name, args, rfl⟩, by simp only [Engine.run, hany, if_true]⟩
    | skip =>
      right
      exact ⟨rows, by simp only [Engine.run, hany, if_true]⟩
  | update args ns name version =>
    right
    have hnone : affected e rows args ns name version = [] := by
      rw [affected, List.filter_eq_nil_iff]
      intro r hr hhit
      rw [isAt_eq r ⟨ns, name⟩, Bool.and_eq_true, Bool.and_eq_true, decide_eq_true_iff,
        beq_iff_eq] at hhit
      have hat : rowAt rows ⟨ns, name⟩ = some r := hhit.1.1 ▸ rowAt_of_mem h hr
      exact hfits ⟨r, hat, hhit.1.2⟩
    exact ⟨_, congrArg (fun hits : List Row =>
      (Except.ok (hits.length, _) : Except DbErr (Nat × List Row))) hnone⟩

/-! ## The statement of a Put -/

/-- What a Put with this expectation must find. -/
def Expects (v : Int) (o : Option Row) : Prop :=
  if v = 0 then o = none else ∃ row, o = some row ∧ row.version = v

theorem Expects.version {o : Option Row} (h : Expects v o) : (o.map Row.version).getD 0 = v := by
  unfold Expects at h
  split at h
  · next hv => rw [h, hv]; rfl
  · obtain ⟨row, rfl, hrow⟩ := h
    exact hrow

/-- The row a Put writes. -/
def putRow (e : Engine driver) (v : Int) (rec : Record) : Row :=
  e.row rec.key.ns rec.key.name (SqlStore.recordUpdateArgs e.dialect rec) (v + 1)

/-- The dialects differ in what they say to a duplicate key. -/
theorem insertSQL_cases (e : Engine driver) :
    e.dialect.insertSQL = .insert .skip ∨
      e.dialect.insertSQL = .insert .fail ∧ e.dialect.duplicateKey = some isMySQLDuplicateKey := by
  cases driver with
  | postgres => exact .inl rfl
  | mysql => exact .inr ⟨rfl, rfl⟩
  | sqlite => exact .inl rfl

/-- The statement asks for what the Put is to do. -/
structure Asks (e : Engine driver) (v : Int) (rec : Record) (st : Statement) : Prop where
  key : st.key = rec.key
  finds : ∀ o, Finds st o ↔ Expects v o
  row : st.row e = putRow e v rec

theorem asks_update (hv : v ≠ 0) : Asks e v rec
    (.update (SqlStore.recordUpdateArgs e.dialect rec) rec.key.ns rec.key.name v) where
  key := rfl
  finds := fun o => by simp only [Finds, Expects, if_neg hv]
  row := rfl

theorem asks_insert (e : Engine driver) (rec : Record) : Asks e 0 rec
    (e.dialect.insertSQL rec.key.ns rec.key.name (SqlStore.recordUpdateArgs e.dialect rec)) := by
  rcases insertSQL_cases e with h | ⟨h, -⟩
  · rw [h]
    exact ⟨rfl, fun o => by simp [Finds, Expects], rfl⟩
  · rw [h]
    exact ⟨rfl, fun o => by simp [Finds, Expects], rfl⟩

end Berth.Lease.Sql
