/-
Berth.Lease.SqlServerTheorems — the SQL store under concurrent calls.

The invariant `Ok` says that a pending statement fits the committed rows and
that no two transactions have one for the same row, so a statement still
fits when it is committed, and every write in the log took its row from
one version to the next.

`sql_put_swaps` and `sql_reads_instant` collect the results for whole runs.
They speak of instants since a call began. They hold in every state of a
run, so also right when the call returns, and then such an instant is one
of the call.
-/
import Berth.Interleave.PoolTheorems
import Berth.Lease.BackendTheorems
import Berth.Lease.SqlServer

namespace Berth.Lease.Sql

open Berth.Interleave
open K8s (StoreCall StoreOutcome)

/-! ## The log -/

section Log

variable {driver : Driver} {e : Engine driver} {init : Initial} {ws : List RowWrite}
variable {x y : RowWrite} {key : Key} {v : Int}

theorem rowAfter_cons :
    rowAfter init (x :: ws) key =
      if key = x.after.key then some x.after else rowAfter init ws key := by
  unfold rowAfter
  by_cases h : key = x.after.key
  · simp [h]
  · simp [h, Ne.symm h]

/-- Every write takes its row, as it was then, to the next version. -/
def Legit (init : Initial) : List RowWrite → Prop
  | [] => True
  | x :: ws => x.before = rowAfter init ws x.after.key ∧
      x.after.version = (x.before.map Row.version).getD 0 + 1 ∧ Legit init ws

theorem Legit.suffix {ws' : List RowWrite} (h : Legit init ws') (hws : ws <:+ ws') :
    Legit init ws := by
  obtain ⟨pre, rfl⟩ := hws
  induction pre with
  | nil => exact h
  | cons x pre ih => exact ih h.2.2

/-- No write lowers the version of a row. -/
theorem Legit.spent (h : Legit init ws) (hx : x ∈ ws) :
    ∃ row, rowAfter init ws x.after.key = some row ∧ x.after.version ≤ row.version := by
  induction ws with
  | nil => cases hx
  | cons y ws ih =>
    obtain ⟨hbefore, hversion, hws⟩ := h
    rw [rowAfter_cons]
    by_cases hkey : x.after.key = y.after.key
    · rw [if_pos hkey]
      refine ⟨y.after, rfl, ?_⟩
      rcases List.mem_cons.mp hx with rfl | hx
      · exact Int.le_refl _
      · obtain ⟨row, hrow, hle⟩ := ih hws hx
        rw [hbefore, ← hkey, hrow, Option.map_some, Option.getD_some] at hversion
        omega
    · rw [if_neg hkey]
      rcases List.mem_cons.mp hx with rfl | hx
      · exact absurd rfl hkey
      · exact ih hws hx

theorem Legit.version (h : Legit init ws) (hx : x ∈ ws) (hv : Expects v x.before) :
    x.after.version = v + 1 := by
  induction ws with
  | nil => cases hx
  | cons y ws ih =>
    rcases List.mem_cons.mp hx with rfl | hx
    · rw [h.2.1, hv.version]
    · exact ih h.2.2 hx

/-- A version of a row is used up once. -/
theorem Legit.once (h : Legit init ws) (hx : x ∈ ws) (hy : y ∈ ws)
    (hkey : x.after.key = y.after.key) (hvx : Expects v x.before) (hvy : Expects v y.before) :
    x = y := by
  -- the older of two writes has taken the row past the version
  have hpast : ∀ {z w : RowWrite} {ws}, Legit init (z :: ws) → w ∈ ws →
      z.after.key = w.after.key → Expects v z.before → w.after.version ≠ v + 1 := by
    intro z w ws hz hw hzw hexp heq
    obtain ⟨row, hrow, hle⟩ := hz.2.2.spent hw
    rw [hz.1, hzw, hrow] at hexp
    have := hexp.version
    simp only [Option.map_some, Option.getD_some] at this
    omega
  induction ws with
  | nil => cases hx
  | cons z ws ih =>
    rcases List.mem_cons.mp hx with hxz | hxw <;> rcases List.mem_cons.mp hy with hyz | hyw
    · rw [hxz, hyz]
    · subst hxz
      exact absurd (h.version hy hvy) (hpast h hyw hkey hvx)
    · subst hyz
      exact absurd (h.version hx hvx) (hpast h hxw hkey.symm hvy)
    · exact ih h.2.2 hxw hyw

end Log

/-! ## Transactions -/

section Invariant

variable {driver : Driver} {e : Engine driver} {init : Initial} {s s' s'' : Server} {i j : Nat}
variable {tx : Session} {st st' : Statement}

/-- The transaction of call `i` has executed `st` and not ended. -/
def Pending (s : Server) (i : Nat) (st : Statement) : Prop :=
  ∃ tx, s.sessions.lookup i = some tx ∧ tx.pending = some st

/-- The invariant of the database. -/
structure Ok (init : Initial) (s : Server) : Prop where
  distinct : Distinct s.rows
  rows : ∀ key, rowAt s.rows key = rowAfter init s.log key
  legit : Legit init s.log
  locks : ∀ {i j st st'}, Pending s i st → Pending s j st' → st.key = st'.key → i = j
  fits : ∀ {i st}, Pending s i st → Fits s.rows st

/-- Fewer pending statements are as good. -/
theorem Ok.fewer (h : Ok init s) (hrows : s'.rows = s.rows) (hlog : s'.log = s.log)
    (hp : ∀ j st, Pending s' j st → Pending s j st) : Ok init s' where
  distinct := by rw [hrows]; exact h.distinct
  rows := by rw [hrows, hlog]; exact h.rows
  legit := by rw [hlog]; exact h.legit
  locks := fun hi hj => h.locks (hp _ _ hi) (hp _ _ hj)
  fits := fun hi => by rw [hrows]; exact h.fits (hp _ _ hi)

theorem lookup_close (s : Server) (i j : Nat) :
    (s.close i).sessions.lookup j = if j = i then none else s.sessions.lookup j := by
  unfold Server.close
  by_cases h : j = i
  · rw [if_pos h, h, AList.lookup_erase]
  · rw [if_neg h, AList.lookup_erase_ne h]

theorem pending_close (h : Pending (s.close i) j st) : j ≠ i ∧ Pending s j st := by
  obtain ⟨tx, htx, hst⟩ := h
  rw [lookup_close] at htx
  split at htx
  · cases htx
  · next hne => exact ⟨hne, tx, htx, hst⟩

theorem pending_insert {m : Server} (hm : m.sessions = s.sessions.insert i tx)
    (h : Pending m j st) : (j = i ∧ tx.pending = some st) ∨ (j ≠ i ∧ Pending s j st) := by
  obtain ⟨tx', htx, hst⟩ := h
  rw [hm] at htx
  by_cases hj : j = i
  · subst hj
    rw [AList.lookup_insert, Option.some.injEq] at htx
    exact .inl ⟨rfl, htx ▸ hst⟩
  · rw [AList.lookup_insert_ne hj] at htx
    exact .inr ⟨hj, tx', htx, hst⟩

/-- Nobody else has written an unlocked row. -/
theorem eq_of_unlocked {key : Key} (h : s.locked i key = false) (hj : Pending s j st)
    (hkey : st.key = key) : j = i := by
  obtain ⟨tx, htx, hst⟩ := hj
  have hmem : (⟨j, tx⟩ : Σ _ : Nat, Session) ∈ s.sessions.entries :=
    AList.mem_lookup_iff.mp htx
  have hfalse := List.any_eq_false.mp h _ hmem
  by_cases hji : j = i
  · exact hji
  · simp [hst, hkey, hji] at hfalse

theorem Ok.hold (h : Ok init s) (hfree : s.locked i st.key = false) (hfits : Fits s.rows st) :
    Ok init (s.hold i tx st) where
  distinct := h.distinct
  rows := h.rows
  legit := h.legit
  locks := by
    intro a b sta stb ha hb hkey
    rcases pending_insert rfl ha with ⟨hai, hsta⟩ | ⟨hai, ha⟩ <;>
      rcases pending_insert rfl hb with ⟨hbi, hstb⟩ | ⟨hbi, hb⟩
    · rw [hai, hbi]
    · rw [hai]
      exact (eq_of_unlocked hfree hb (by rw [← hkey, ← Option.some.inj hsta])).symm
    · rw [hbi]
      exact eq_of_unlocked hfree ha (by rw [hkey, ← Option.some.inj hstb])
    · exact h.locks ha hb hkey
  fits := by
    intro a sta ha
    rcases pending_insert rfl ha with ⟨-, hsta⟩ | ⟨-, ha⟩
    · rw [← Option.some.inj hsta]
      exact hfits
    · exact h.fits ha

/-- What a commit writes. -/
def written (e : Engine driver) (i : Nat) (s : Server) (st : Statement) : RowWrite :=
  { tid := i, before := rowAt s.rows st.key, after := st.row e }

/-- A commit makes the pending statement's row visible. -/
theorem land_pending (h : Ok init s) (htx : s.sessions.lookup i = some tx)
    (hst : tx.pending = some st) :
    ∃ rows, s.land e i tx = { s with rows := rows, log := written e i s st :: s.log } ∧
      Distinct rows ∧
      ∀ key, rowAt rows key = if key = st.key then some (st.row e) else rowAt s.rows key := by
  obtain ⟨rows, hrun, hdistinct, hrows⟩ := run_fits (e := e) h.distinct (h.fits ⟨tx, htx, hst⟩)
  refine ⟨rows, ?_, hdistinct, hrows⟩
  simp only [Server.land, hst, hrun]
  rfl

theorem land_idle (hst : tx.pending = none) : s.land e i tx = s := by
  simp only [Server.land, hst]

theorem sessions_land (e : Engine driver) (s : Server) (i : Nat) (tx : Session) :
    (s.land e i tx).sessions = s.sessions := by
  unfold Server.land
  split
  · rfl
  · split <;> rfl

theorem finds_version {o : Option Row} (h : Finds st o) :
    (st.row e).version = (o.map Row.version).getD 0 + 1 := by
  cases st with
  | insert onDuplicate ns name args =>
    rw [show o = none from h]
    rfl
  | update args ns name version =>
    obtain ⟨row, rfl, rfl⟩ := h
    rfl

/-- Committing keeps the invariant: the other pending statements are about
other rows. -/
theorem Ok.land (h : Ok init s) (htx : s.sessions.lookup i = some tx) :
    Ok init ((s.land e i tx).close i) := by
  cases hst : tx.pending with
  | none =>
    rw [land_idle hst]
    exact h.fewer rfl rfl fun _ _ hp => (pending_close hp).2
  | some st =>
    obtain ⟨rows, hland, hdistinct, hrows⟩ := land_pending (e := e) h htx hst
    have hpending : ∀ {j st'}, Pending ((s.land e i tx).close i) j st' →
        j ≠ i ∧ Pending s j st' := by
      intro j st' hp
      rw [hland] at hp
      exact pending_close (s := { s with rows := rows, log := written e i s st :: s.log }) hp
    have hkey : (written e i s st).after.key = st.key := key_row st
    constructor
    · rw [hland]
      exact hdistinct
    · intro key
      rw [hland]
      show rowAt rows key = rowAfter init (written e i s st :: s.log) key
      rw [hrows, rowAfter_cons, hkey, h.rows]
      rfl
    · rw [hland]
      refine ⟨?_, ?_, h.legit⟩
      · rw [hkey]
        exact h.rows st.key
      · exact finds_version (h.fits ⟨tx, htx, hst⟩)
    · intro a b sta stb ha hb
      exact h.locks (hpending ha).2 (hpending hb).2
    · intro a sta ha
      obtain ⟨hne, ha⟩ := hpending ha
      have hother : sta.key ≠ st.key := fun heq => hne (h.locks ha ⟨tx, htx, hst⟩ heq)
      have hfits := h.fits ha
      rw [hland]
      show Finds sta (rowAt rows sta.key)
      rw [hrows, if_neg hother]
      exact hfits

end Invariant

/-! ## What a step may do -/

section Steps

variable {driver : Driver} {e : Engine driver} {init : Initial} {s s' s'' : Server} {i j : Nat}
variable {l l' : Loc} {tx : Session} {st : Statement}

/-- Call `i` has written nothing. -/
def Silent (i : Nat) (s : Server) : Prop := ∀ x ∈ s.log, x.tid ≠ i

/-- What a step that is no write of call `i` leaves as it was. -/
structure Later (i : Nat) (s s' : Server) : Prop where
  log : s.log <:+ s'.log
  silent : Silent i s → Silent i s'

theorem Later.trans (h : Later i s s') (h' : Later i s' s'') : Later i s s'' :=
  ⟨h.log.trans h'.log, fun hs => h'.silent (h.silent hs)⟩

/-- What happens around call `i`: others write, and its connection may be
lost. -/
structure Around (i : Nat) (s s' : Server) : Prop extends Later i s s' where
  session : s'.sessions.lookup i = s.sessions.lookup i ∨ s'.sessions.lookup i = none

theorem Around.refl (i : Nat) (s : Server) : Around i s s := ⟨⟨List.suffix_rfl, id⟩, .inl rfl⟩

theorem Around.trans (h : Around i s s') (h' : Around i s' s'') : Around i s s'' := by
  refine ⟨h.toLater.trans h'.toLater, ?_⟩
  rcases h'.session with heq | hnone
  · rw [heq]
    exact h.session
  · exact .inr hnone

/-- What one step of call `i` does. -/
structure Does (init : Initial) (i : Nat) (s s' : Server) : Prop where
  ok : Ok init s → Ok init s'
  log : s'.log = s.log ∨ ∃ x, x.tid = i ∧ s'.log = x :: s.log
  others : ∀ j, j ≠ i → s'.sessions.lookup j = s.sessions.lookup j

theorem Does.refl (init : Initial) (i : Nat) (s : Server) : Does init i s s :=
  ⟨id, .inl rfl, fun _ _ => rfl⟩

theorem Does.around (h : Does init i s s') (hij : i ≠ j) : Around j s s' := by
  refine ⟨⟨?_, ?_⟩, .inl (h.others j hij.symm)⟩
  · rcases h.log with heq | ⟨x, -, heq⟩
    · rw [heq]
    · rw [heq]
      exact List.suffix_cons _ _
  · intro hs x hx
    rcases h.log with heq | ⟨y, hy, heq⟩
    · rw [heq] at hx
      exact hs x hx
    rw [heq] at hx
    rcases List.mem_cons.mp hx with rfl | hx
    · rw [hy]
      exact hij
    · exact hs x hx

theorem does_close (init : Initial) (i : Nat) (s : Server) : Does init i s (s.close i) where
  ok := fun h => h.fewer rfl rfl fun _ _ hp => (pending_close hp).2
  log := .inl rfl
  others := fun j hj => by rw [lookup_close, if_neg hj]

theorem around_close (i j : Nat) (s : Server) : Around j s (s.close i) := by
  refine ⟨⟨List.suffix_rfl, id⟩, ?_⟩
  rw [lookup_close]
  split
  · exact .inr rfl
  · exact .inl rfl

def discipline (e : Engine driver) (init : Initial) : Discipline (machine e) where
  adm := fun _ => True
  inv := Ok init
  unborn := Silent
  guar := fun i _ => Does init i
  interf := fun i _ => Around i
  refl := fun i _ s => Around.refl i s
  trans := fun h h' => h.trans h'
  guar_inv := fun hs _ h => h.ok hs
  guar_interf := fun hij _ _ h => h.around hij
  env_inv := fun {i s _} hs _ h => by
    cases h
    exact (does_close init i s).ok hs
  env_interf := fun {i j _ s _} _ _ h => by
    cases h
    exact around_close i j s
  start_inv := fun hs _ h => by
    cases h
    exact hs
  start_interf := fun _ _ _ h => by
    cases h
    exact Around.refl _ _
  unborn_interf := fun h hs => (h ⟨.list, 0⟩).silent hs

/-- The call has begun. -/
def Timed (l : Loc) (s : Server) : Prop := l.started ≤ s.log.length

theorem Timed.grow (h : Timed l s) (hlog : s.log <:+ s'.log) : Timed l s' :=
  Nat.le_trans h hlog.length_le

/-- At some instant since the call began. -/
def During (l : Loc) (s : Server) (P : List RowWrite → Prop) : Prop :=
  ∃ ws, ws <:+ s.log ∧ l.started ≤ ws.length ∧ P ws

theorem During.grow {P : List RowWrite → Prop} (h : During l s P) (hlog : s.log <:+ s'.log) :
    During l s' P := by
  obtain ⟨ws, hws, hlo, hp⟩ := h
  exact ⟨ws, hws.trans hlog, hlo, hp⟩

theorem During.now {P : List RowWrite → Prop} (ht : Timed l s) (hp : P s.log) : During l s P :=
  ⟨s.log, List.suffix_rfl, ht, hp⟩

/-- If the transaction is still there, it has executed `st`. -/
def Holds (i : Nat) (st : Statement) (s : Server) : Prop :=
  ∀ tx, s.sessions.lookup i = some tx → tx.pending = some st

theorem Holds.around (h : Holds i st s) (ha : Around i s s') : Holds i st s' := by
  intro tx htx
  rcases ha.session with heq | hnone
  · exact h tx (heq ▸ htx)
  · rw [hnone] at htx
    cases htx

theorem holds_hold (s : Server) (i : Nat) (tx : Session) (st : Statement) :
    Holds i st (s.hold i tx st) := by
  intro tx' htx
  rw [Server.hold, AList.lookup_insert, Option.some.injEq] at htx
  rw [← htx]

/-- A write of call `i` since it began, over the row that `st` expects. -/
def Landed (e : Engine driver) (i : Nat) (st : Statement) (l : Loc) (s : Server) : Prop :=
  ∃ x ws, x :: ws <:+ s.log ∧ l.started ≤ ws.length ∧ x.tid = i ∧ Finds st x.before ∧
    x.after = st.row e

/-! ## One rule for each request -/

variable {α : Type} {Q : α → Loc → Server → Prop}

/-- Program `p`, as call `i`, ends in `Q` whatever the others do. -/
abbrev Ends (e : Engine driver) (init : Initial) (i : Nat) (p : Prog SqlSig α)
    (Q : α → Loc → Server → Prop) (l : Loc) (s : Server) : Prop :=
  Robust (discipline e init) i p Q l s

theorem robust_begin {readOnly : Bool} {k : Except DbErr Unit → Prog SqlSig α}
    (hk : ∀ r s', Later i s s' → Ends e init i (k r) Q l s') :
    Ends e init i ((Tx.begin readOnly).bind k) Q l s := by
  intro s₁ h₁ _ ch r l₁ s₂ hex _
  change exec e i ch (.beginTx readOnly) l s₁ = some (r, l₁, s₂) at hex
  cases ch with
  | answer =>
    cases hex
    refine ⟨⟨fun hok => hok.fewer rfl rfl fun j st hp => ?_, .inl rfl, fun j hj => ?_⟩,
      hk _ _ ⟨h₁.log, h₁.silent⟩⟩
    · rcases pending_insert rfl hp with ⟨-, hnone⟩ | ⟨-, hp⟩
      · cases hnone
      · exact hp
    · exact AList.lookup_insert_ne hj
  | fault err =>
    cases hex
    exact ⟨.refl _ _ _, hk _ _ h₁.toLater⟩
  | _ => cases hex

/-- The rows are those of an instant of the call. -/
def Selected (init : Initial) (q : Query) (rows : List Row) (err : Option DbErr)
    (ws : List RowWrite) : Prop :=
  ∃ stored, Distinct stored ∧ (∀ key, rowAt stored key = rowAfter init ws key) ∧
    rows ⊆ q.select stored ∧ (err = none → rows.Perm (q.select stored))

theorem robust_query {q : Query} {k : Except DbErr Rows → Prog SqlSig α} (ht : Timed l s)
    (hfail : ∀ err s', Ends e init i (k (.error err)) Q l s')
    (hk : ∀ rows err s', During l s' (Selected init q rows err) →
      Ends e init i (k (.ok ⟨rows, err⟩)) Q l s') :
    Ends e init i ((Tx.query q).bind k) Q l s := by
  intro s₁ h₁ hok ch r l₁ s₂ hex _
  change exec e i ch (.query q) l s₁ = some (r, l₁, s₂) at hex
  have hnow : ∀ rows err, rows ⊆ q.select s₁.rows → (err = none → rows.Perm (q.select s₁.rows)) →
      During l s₁ (Selected init q rows err) := by
    intro rows err hsub hperm
    exact .now (ht.grow h₁.log) ⟨s₁.rows, hok.distinct, hok.rows, hsub, hperm⟩
  simp only [exec] at hex
  split at hex
  · cases hex
    exact ⟨.refl _ _ _, hfail _ _⟩
  cases ch with
  | order rows =>
    simp only at hex
    split at hex
    · next hperm =>
      cases hex
      have hp : rows.Perm (q.select s₁.rows) := List.isPerm_iff.mp hperm
      exact ⟨.refl _ _ _, hk _ _ _ (hnow _ _ hp.subset fun _ => hp)⟩
    · cases hex
  | cut rows err =>
    simp only at hex
    split at hex
    · next hall =>
      cases hex
      have hsub : rows ⊆ q.select s₁.rows := by
        intro row hrow
        simpa using List.all_eq_true.mp hall row hrow
      exact ⟨.refl _ _ _, hk _ _ _ (hnow _ _ hsub fun h => by cases h)⟩
    · cases hex
  | fault err =>
    cases hex
    exact ⟨.refl _ _ _, hfail _ _⟩
  | _ => cases hex

theorem robust_rollback {k : Unit → Prog SqlSig α}
    (hk : ∀ s', Later i s s' → Ends e init i (k ()) Q l s') :
    Ends e init i (Tx.rollback.bind k) Q l s := by
  intro s₁ h₁ _ ch r l₁ s₂ hex _
  change exec e i ch .rollback l s₁ = some (r, l₁, s₂) at hex
  cases hex
  exact ⟨does_close init i s₁, hk _ ⟨h₁.log, h₁.silent⟩⟩

theorem heard_cases {ch : Choice} {ran : Except DbErr Nat} {r : Except DbErr (Except DbErr Nat)}
    {done : Bool} (h : heard ch ran = some (r, done)) :
    (done = true ∧ (r = ran.map .ok ∨ ∃ err, r = ran.map fun _ => .error err)) ∨
      ∃ err, r = .error err ∧ err.number ≠ some 1062 := by
  cases ch with
  | answer =>
    cases h
    exact .inl ⟨rfl, .inl rfl⟩
  | uncounted err =>
    cases h
    exact .inl ⟨rfl, .inr ⟨err, rfl⟩⟩
  | late err | fault err =>
    simp only [heard] at h
    split at h
    · next herr =>
      cases h
      exact .inr ⟨err, rfl, bne_iff_ne.mp herr⟩
    · cases h
  | _ => cases h

/-- Everything an execution can do: it fails, it finds another row than it
expects and changes nothing, or it holds its row, whether the caller hears
of it or not. -/
theorem exec_statement {ch : Choice} {r : Except DbErr (Except DbErr Nat)} (hok : Ok init s)
    (h : exec e i ch (.exec st) l s = some (r, l', s')) :
    l' = l ∧
    ((s' = s ∧ ∃ err, r = .error err ∧ err.number ≠ some 1062) ∨
      (s' = s ∧ ¬ Fits s.rows st ∧
        (r = .error e.duplicate ∨ r = .ok (.ok 0) ∨ ∃ err, r = .ok (.error err))) ∨
      (Fits s.rows st ∧ s.locked i st.key = false ∧ (∃ tx, s' = s.hold i tx st) ∧
        (r = .ok (.ok 1) ∨ (∃ err, r = .ok (.error err)) ∨
          ∃ err, r = .error err ∧ err.number ≠ some 1062))) := by
  simp only [exec] at h
  split at h
  · cases h
    exact ⟨rfl, .inl ⟨rfl, badConn, rfl, by decide⟩⟩
  rename_i tx _
  split at h
  · cases h
    exact ⟨rfl, .inl ⟨rfl, badConn, rfl, by decide⟩⟩
  split at h
  · cases h
  rename_i hfree
  obtain ⟨⟨r₀, done⟩, hheard, heq⟩ := Option.map_eq_some_iff.mp h
  by_cases hfits : Fits s.rows st
  · obtain ⟨rows, hrun, -, -⟩ := run_fits (e := e) hok.distinct hfits
    rw [hrun] at hheard heq
    cases heq
    refine ⟨rfl, ?_⟩
    rcases heard_cases hheard with ⟨rfl, hr⟩ | ⟨err, rfl, herr⟩
    · refine .inr (.inr ⟨hfits, Bool.eq_false_iff.mpr hfree, ⟨tx, rfl⟩, ?_⟩)
      rcases hr with rfl | ⟨err, rfl⟩
      · exact .inl rfl
      · exact .inr (.inl ⟨err, rfl⟩)
    · cases done with
      | false => exact .inl ⟨rfl, err, rfl, herr⟩
      | true =>
        exact .inr (.inr ⟨hfits, Bool.eq_false_iff.mpr hfree, ⟨tx, rfl⟩,
          .inr (.inr ⟨err, rfl, herr⟩)⟩)
  · have hnone : ((e.run s.rows st).map Prod.fst).toOption.any (0 < ·) = false := by
      rcases run_unfit (e := e) hok.distinct hfits with ⟨-, hrun⟩ | ⟨rows, hrun⟩ <;>
        rw [hrun] <;> rfl
    rw [hnone, Bool.and_false] at heq
    cases heq
    refine ⟨rfl, ?_⟩
    rcases heard_cases hheard with ⟨-, hr⟩ | ⟨err, rfl, herr⟩
    · refine .inr (.inl ⟨rfl, hfits, ?_⟩)
      rcases run_unfit (e := e) hok.distinct hfits with ⟨-, hrun⟩ | ⟨rows, hrun⟩ <;>
        rw [hrun] at hr <;> rcases hr with rfl | ⟨err, rfl⟩
      · exact .inl rfl
      · exact .inl rfl
      · exact .inr (.inl rfl)
      · exact .inr (.inr ⟨err, rfl⟩)
    · exact .inl ⟨rfl, err, rfl, herr⟩

theorem robust_exec {k : Except DbErr (Except DbErr Nat) → Prog SqlSig α} (ht : Timed l s)
    (hfail : ∀ err s', Later i s s' →
      (err.number = some 1062 → During l s' fun ws => ¬ Finds st (rowAfter init ws st.key)) →
      Ends e init i (k (.error err)) Q l s')
    (huncounted : ∀ err s', Ends e init i (k (.ok (.error err))) Q l s')
    (hone : ∀ s', Timed l s' → Holds i st s' →
      Ends e init i (k (.ok (.ok 1))) Q l s')
    (hnone : ∀ s', Later i s s' →
      (During l s' fun ws => ¬ Finds st (rowAfter init ws st.key)) →
      Ends e init i (k (.ok (.ok 0))) Q l s') :
    Ends e init i ((Tx.exec st).bind k) Q l s := by
  intro s₁ h₁ hok ch r l₁ s₂ hex _
  obtain ⟨rfl, ⟨rfl, err, rfl, herr⟩ | ⟨rfl, hunfit, hr⟩ | ⟨hfits, hfree, ⟨tx, rfl⟩, hr⟩⟩ :=
    exec_statement hok (show exec e i ch (.exec st) l s₁ = some (r, l₁, s₂) from hex)
  · exact ⟨.refl _ _ _, hfail err _ h₁.toLater fun h => absurd h herr⟩
  · have hnow : During l₁ s₂ fun ws => ¬ Finds st (rowAfter init ws st.key) :=
      .now (ht.grow h₁.log) fun h => hunfit (show Finds st (rowAt s₂.rows st.key) by
        rw [hok.rows]; exact h)
    refine ⟨.refl _ _ _, ?_⟩
    rcases hr with rfl | rfl | ⟨err, rfl⟩
    · exact hfail _ _ h₁.toLater fun _ => hnow
    · exact hnone _ h₁.toLater hnow
    · exact huncounted err _
  · refine ⟨⟨fun _ => hok.hold hfree hfits, .inl rfl, fun j hj => AList.lookup_insert_ne hj⟩, ?_⟩
    rcases hr with rfl | ⟨err, rfl⟩ | ⟨err, rfl, herr⟩
    · exact hone _ (ht.grow h₁.log) (holds_hold _ i tx st)
    · exact huncounted err _
    · exact hfail err _ ⟨h₁.log, h₁.silent⟩ fun h => absurd h herr

theorem land_log (hok : Ok init s) (htx : s.sessions.lookup i = some tx) :
    (tx.pending = none ∧ (s.land e i tx).log = s.log) ∨
      ∃ st, tx.pending = some st ∧ (s.land e i tx).log = written e i s st :: s.log := by
  cases hst : tx.pending with
  | none => exact .inl ⟨rfl, by rw [land_idle hst]⟩
  | some st =>
    obtain ⟨rows, hland, -, -⟩ := land_pending (e := e) hok htx hst
    exact .inr ⟨st, rfl, by rw [hland]⟩

theorem suffix_land (hok : Ok init s) (htx : s.sessions.lookup i = some tx) :
    s.log <:+ (s.land e i tx).log := by
  rcases land_log (e := e) hok htx with ⟨-, heq⟩ | ⟨st, -, heq⟩
  · rw [heq]
  · rw [heq]
    exact List.suffix_cons _ _

theorem does_land (hok : Ok init s) (htx : s.sessions.lookup i = some tx) :
    Does init i s ((s.land e i tx).close i) := by
  refine ⟨fun _ => hok.land htx, ?_, fun j hj => ?_⟩
  · rcases land_log (e := e) hok htx with ⟨-, heq⟩ | ⟨st, -, heq⟩
    · exact .inl heq
    · exact .inr ⟨_, rfl, heq⟩
  · rw [lookup_close, if_neg hj, sessions_land]

theorem landed_land (hok : Ok init s) (htx : s.sessions.lookup i = some tx)
    (hst : tx.pending = some st) (ht : Timed l s) :
    Landed e i st l ((s.land e i tx).close i) := by
  rcases land_log (e := e) hok htx with ⟨hnone, -⟩ | ⟨st', hst', heq⟩
  · rw [hst] at hnone
    cases hnone
  rw [hst, Option.some.injEq] at hst'
  subst hst'
  refine ⟨written e i s st, s.log, ?_, ht, rfl, hok.fits ⟨tx, htx, hst⟩, rfl⟩
  show _ <:+ (s.land e i tx).log
  rw [heq]

/-- A commit that succeeds made the statement's row visible. -/
theorem robust_commit {k : Except DbErr Unit → Prog SqlSig α}
    (hfail : ∀ err s', Ends e init i (k (.error err)) Q l s')
    (hk : ∀ s', s.log <:+ s'.log → (∀ st, Timed l s → Holds i st s → Landed e i st l s') →
      Ends e init i (k (.ok ())) Q l s') :
    Ends e init i (Tx.commit.bind k) Q l s := by
  intro s₁ h₁ hok ch r l₁ s₂ hex _
  change exec e i ch .commit l s₁ = some (r, l₁, s₂) at hex
  simp only [exec] at hex
  split at hex
  · cases hex
    exact ⟨.refl _ _ _, hfail _ _⟩
  rename_i tx htx
  cases ch with
  | answer =>
    cases hex
    refine ⟨does_land hok htx, hk _ (h₁.log.trans (suffix_land hok htx)) fun st ht hst => ?_⟩
    exact landed_land hok htx ((hst.around h₁) tx htx) (ht.grow h₁.log)
  | fault err =>
    cases hex
    exact ⟨does_close init i s₁, hfail _ _⟩
  | late err =>
    cases hex
    exact ⟨does_land hok htx, hfail _ _⟩
  | _ => cases hex

/-- A statement about the call that its later requests leave true. -/
def Stable (i : Nat) (P : α → Loc → Server → Prop) : Prop :=
  ∀ a l s s', P a l s → Later i s s' → P a l s'

theorem robust_ret (hP : Stable i Q) {a : α} (h : Q a l s) :
    Ends e init i (.ret a) Q l s :=
  fun s' ha _ => hP a l s s' h ha.toLater

theorem robust_deferRollback (hP : Stable i Q) {body : Prog SqlSig α}
    (h : Ends e init i body Q l s) :
    Ends e init i (SqlStore.deferRollback body) Q l s := by
  change Ends e init i (body.bind fun r => Tx.rollback.bind fun _ => .ret r) Q l s
  refine Robust.bind (h.mono fun a l₁ s₁ _ hp => ?_)
  exact robust_rollback fun s₂ hl => robust_ret hP (hP a l₁ s₁ s₂ hp hl)

end Steps

/-! ## Put -/

section Put

variable {driver : Driver} {e : Engine driver} {init : Initial} {s s' : Server} {i : Nat}
variable {l l' : Loc} {st : Statement} {v : Int} {rec : Record}

structure PutPost (e : Engine driver) (init : Initial) (i : Nat) (v : Int) (rec : Record)
    (a : Except Err Unit) (l : Loc) (s : Server) : Prop where
  ok : a = .ok () → ∃ x ws, x :: ws <:+ s.log ∧ l.started ≤ ws.length ∧ x.tid = i ∧
    Expects v x.before ∧ x.after = putRow e v rec
  conflict : a = .error errConflict →
    Silent i s ∧ During l s fun ws => ¬ Expects v (rowAfter init ws rec.key)

theorem putPost_stable : Stable i (PutPost e init i v rec) := by
  intro a l s s' h hl
  constructor
  · intro ha
    obtain ⟨x, ws, hws, hrest⟩ := h.ok ha
    exact ⟨x, ws, hws.trans hl.log, hrest⟩
  · intro ha
    obtain ⟨hsilent, hduring⟩ := h.conflict ha
    exact ⟨hl.silent hsilent, hduring.grow hl.log⟩

/-- An answer that is neither success nor `ErrConflict` says nothing. -/
theorem putPost_wrap {msg : String} {err : Err} :
    PutPost e init i v rec (.error (.wrap msg err)) l s :=
  ⟨fun ha => (by cases ha), fun ha => (by cases ha)⟩

theorem putPost_conflict (hsilent : Silent i s)
    (h : During l s fun ws => ¬ Expects v (rowAfter init ws rec.key)) :
    PutPost e init i v rec (.error errConflict) l s :=
  ⟨fun ha => (by cases ha), fun _ => ⟨hsilent, h⟩⟩

/-- Only a duplicate key counts as one. -/
theorem number_of_duplicateKey {err : DbErr} (h : e.dialect.duplicateKey.any (· err) = true) :
    err.number = some 1062 := by
  cases driver with
  | mysql =>
    have : isMySQLDuplicateKey err = true := h
    simpa [isMySQLDuplicateKey] using this
  | postgres => cases h
  | sqlite => cases h

/-- The execution of a Put and what follows. -/
theorem robust_putExec {k : Except DbErr (Except DbErr Nat) → Prog SqlSig (Except Err Unit)}
    (hst : Asks e v rec st) (ht : Timed l s) (hsilent : Silent i s)
    (hok : ∀ res, k (.ok res) = SqlStore.settle rec res)
    (herr : ∀ err, (err.number = some 1062 ∧ k (.error err) = .ret (.error errConflict)) ∨
      ∃ msg err', k (.error err) = .ret (.error (.wrap msg err'))) :
    Ends e init i ((Tx.exec st).bind k) (PutPost e init i v rec) l s := by
  have hmissed : ∀ {l s}, (During l s fun ws => ¬ Finds st (rowAfter init ws st.key)) →
      During l s fun ws => ¬ Expects v (rowAfter init ws rec.key) := by
    rintro l s ⟨ws, hws, hlo, hnot⟩
    rw [hst.key, hst.finds] at hnot
    exact ⟨ws, hws, hlo, hnot⟩
  refine robust_exec ht ?_ ?_ ?_ ?_
  · intro err s₁ hl hdup
    rcases herr err with ⟨hnumber, hk⟩ | ⟨msg, err', hk⟩
    · rw [hk]
      exact robust_ret putPost_stable
        (putPost_conflict (hl.silent hsilent) (hmissed (hdup hnumber)))
    · rw [hk]
      exact robust_ret putPost_stable putPost_wrap
  · intro err s₁
    rw [hok]
    exact robust_ret putPost_stable putPost_wrap
  · intro s₁ ht₁ hholds
    rw [hok]
    refine robust_commit (fun err s₂ => robust_ret putPost_stable putPost_wrap) ?_
    intro s₂ _ hlanded
    obtain ⟨x, ws, hx, hlo, htid, hfinds, hrow⟩ := hlanded st ht₁ hholds
    refine robust_ret putPost_stable ⟨fun _ => ?_, fun ha => (by cases ha)⟩
    exact ⟨x, ws, hx, hlo, htid, (hst.finds _).mp hfinds, hrow.trans hst.row⟩
  · intro s₁ hl hnot
    rw [hok]
    exact robust_ret putPost_stable (putPost_conflict (hl.silent hsilent) (hmissed hnot))

theorem robust_put (ht : Timed l s) (hsilent : Silent i s) :
    Ends e init i (SqlStore.put e.dialect v rec) (PutPost e init i v rec) l s := by
  refine robust_begin fun r s₁ hl => ?_
  cases r with
  | error err => exact fun _ _ _ => putPost_wrap
  | ok u =>
    change Robust (discipline e init) i
      (SqlStore.deferRollback (SqlStore.putTx e.dialect v rec)) (PutPost e init i v rec) l s₁
    refine robust_deferRollback putPost_stable ?_
    unfold SqlStore.putTx
    split
    · next hv =>
      subst hv
      refine robust_putExec (asks_insert e rec) (ht.grow hl.log) (hl.silent hsilent)
        (fun _ => rfl) fun err => ?_
      by_cases hdup : e.dialect.duplicateKey.any (· err) = true
      · exact .inl ⟨number_of_duplicateKey hdup, if_pos hdup⟩
      · exact .inr ⟨_, _, if_neg hdup⟩
    · next hv =>
      exact robust_putExec (asks_update hv) (ht.grow hl.log) (hl.silent hsilent) (fun _ => rfl)
        fun err => .inr ⟨_, _, rfl⟩

end Put

/-! ## Get and List -/

section Reads

variable {driver : Driver} {e : Engine driver} {init : Initial} {s s' : Server} {i : Nat}
variable {l l' : Loc} {key : Key} {rows : List Row} {row : Row} {err : Option DbErr}
variable {ws : List RowWrite}

structure GetPost (e : Engine driver) (init : Initial) (key : Key) (a : Except Err Record)
    (l : Loc) (s : Server) : Prop where
  ok : ∀ rec, a = .ok rec → During l s fun ws =>
    ∃ row, rowAfter init ws key = some row ∧ SqlStore.scanRecord e.text row = .ok rec
  notFound : a = .error errNotFound → During l s fun ws => rowAfter init ws key = none

theorem GetPost.grow {a : Except Err Record} (h : GetPost e init key a l s)
    (hlog : s.log <:+ s'.log) : GetPost e init key a l s' :=
  ⟨fun rec ha => (h.ok rec ha).grow hlog, fun ha => (h.notFound ha).grow hlog⟩

theorem getPost_stable : Stable i (GetPost e init key) := fun _ _ _ _ h hl => h.grow hl.log

theorem getPost_wrap {msg : String} {err : Err} :
    GetPost e init key (.error (.wrap msg err)) l s :=
  ⟨fun _ ha => (by cases ha), fun ha => (by cases ha)⟩

/-- The row a query for a key returns is the row of the key. -/
theorem Selected.found (h : Selected init (.get key.ns key.name) (row :: rows) err ws) :
    rowAfter init ws key = some row := by
  obtain ⟨stored, hdistinct, hstored, hsub, -⟩ := h
  have hmem := hsub List.mem_cons_self
  rw [select_get hdistinct, hstored, Option.mem_toList] at hmem
  exact hmem

theorem Selected.absent (h : Selected init (.get key.ns key.name) [] none ws) :
    rowAfter init ws key = none := by
  obtain ⟨stored, hdistinct, hstored, -, hperm⟩ := h
  have hnil := (hperm rfl).nil_eq
  rw [select_get hdistinct, hstored] at hnil
  exact Option.toList_eq_nil_iff.mp hnil.symm

theorem robust_getTx (ht : Timed l s) :
    Ends e init i (SqlStore.getTx e.text key) (GetPost e init key) l s := by
  refine robust_query ht (fun err s₁ => robust_ret getPost_stable getPost_wrap) ?_
  rintro rows err s₁ ⟨ws, hws, hlo, hsel⟩
  cases rows with
  | nil =>
    cases err with
    | some err => exact robust_ret getPost_stable getPost_wrap
    | none =>
      refine robust_ret getPost_stable ⟨fun _ ha => (by cases ha), fun _ => ?_⟩
      exact ⟨ws, hws, hlo, hsel.absent⟩
  | cons row rows =>
    cases hscan : SqlStore.scanRecord e.text row with
    | error err =>
      simp only [hscan]
      exact robust_ret getPost_stable getPost_wrap
    | ok rec =>
      simp only [hscan]
      refine robust_ret getPost_stable ⟨fun rec' ha => ?_, fun ha => (by cases ha)⟩
      cases ha
      exact ⟨ws, hws, hlo, row, hsel.found, hscan⟩

theorem robust_get (ht : Timed l s) :
    Ends e init i (SqlStore.get e.text key) (GetPost e init key) l s := by
  refine robust_begin fun r s₁ hl => ?_
  cases r with
  | error err => exact fun _ _ _ => getPost_wrap
  | ok u =>
    refine robust_deferRollback (i := i) getPost_stable ?_
    refine Robust.bind ((robust_getTx (ht.grow hl.log)).mono fun a l₁ s₂ _ hpost => ?_)
    cases a with
    | error err => exact robust_ret getPost_stable hpost
    | ok rec =>
      refine robust_commit (fun err s₃ => robust_ret getPost_stable getPost_wrap) ?_
      intro s₃ hlog _
      exact robust_ret getPost_stable (hpost.grow hlog)

/-- The listed rows are the table at one instant of the call. -/
structure ListPost (e : Engine driver) (init : Initial) (a : Except Err (List Record))
    (l : Loc) (s : Server) : Prop where
  ok : ∀ recs, a = .ok recs → During l s fun ws =>
    ∃ rows, Distinct rows ∧ (∀ key, rowAt rows key = rowAfter init ws key) ∧
      rows.mapM (SqlStore.scanRecord e.text) = .ok recs

theorem ListPost.grow {a : Except Err (List Record)} (h : ListPost e init a l s)
    (hlog : s.log <:+ s'.log) : ListPost e init a l s' :=
  ⟨fun recs ha => (h.ok recs ha).grow hlog⟩

theorem listPost_stable : Stable i (ListPost e init) := fun _ _ _ _ h hl => h.grow hl.log

theorem listPost_error {err : Err} : ListPost e init (.error err) l s :=
  ⟨fun _ ha => (by cases ha)⟩

theorem Selected.table (h : Selected init .list rows none ws) :
    Distinct rows ∧ ∀ key, rowAt rows key = rowAfter init ws key := by
  obtain ⟨stored, hdistinct, hstored, -, hperm⟩ := h
  have hperm : rows.Perm stored := hperm rfl
  have hrows : Distinct rows :=
    (hperm.pairwise_iff fun hne => Ne.symm hne).mpr hdistinct
  refine ⟨hrows, fun key => ?_⟩
  rw [← hstored]
  refine Option.ext fun row => ?_
  rw [rowAt_eq_some_iff hrows, rowAt_eq_some_iff hdistinct, hperm.mem_iff]

theorem robust_list (ht : Timed l s) :
    Ends e init i (SqlStore.list e.text) (ListPost e init) l s := by
  refine robust_begin fun r s₁ hl => ?_
  cases r with
  | error err => exact fun _ _ _ => listPost_error
  | ok u =>
    refine robust_deferRollback (i := i) listPost_stable ?_
    refine robust_query (ht.grow hl.log)
      (fun err s₂ => robust_ret listPost_stable listPost_error) ?_
    rintro rows err s₂ ⟨ws, hws, hlo, hsel⟩
    cases hscan : rows.mapM (SqlStore.scanRecord e.text) with
    | error err =>
      simp only [hscan]
      exact robust_ret listPost_stable listPost_error
    | ok recs =>
      simp only [hscan]
      cases err with
      | some err => exact robust_ret listPost_stable listPost_error
      | none =>
        refine robust_commit (fun err s₃ => robust_ret listPost_stable listPost_error) ?_
        intro s₃ hlog _
        refine robust_ret listPost_stable ⟨fun recs' ha => ?_⟩
        cases ha
        exact ⟨ws, hws.trans hlog, hlo, rows, hsel.table.1, hsel.table.2, hscan⟩

end Reads

/-! ## Whole runs -/

section Runs

variable {driver : Driver} {e : Engine driver} {init : Initial} {p : Pool (machine e)}

/-- What a returned call knows. -/
def CallPost (e : Engine driver) (init : Initial) (i : Nat) (c : StoreCall) (out : StoreOutcome)
    (l : Loc) (s : Server) : Prop :=
  (∀ key a, c = .get key → out = .record a → GetPost e init key a l s) ∧
    (∀ a, c = .list → out = .records a → ListPost e init a l s) ∧
    ∀ v rec a, c = .put v rec → out = .done a → PutPost e init i v rec a l s

theorem robust_prog {i : Nat} {l : Loc} {s : Server} (c : StoreCall) (ht : Timed l s)
    (hsilent : Silent i s) :
    Ends e init i (prog e c) (CallPost e init i c) l s := by
  cases c with
  | get key =>
    refine Robust.bind ((robust_get ht).mono fun a l₁ s₁ _ hpost => ?_)
    intro s₂ ha _
    refine ⟨?_, fun _ hc => (by cases hc), fun _ _ _ hc => (by cases hc)⟩
    intro key' a' hc hout
    cases hc
    cases hout
    exact hpost.grow ha.log
  | list =>
    refine Robust.bind ((robust_list ht).mono fun a l₁ s₁ _ hpost => ?_)
    intro s₂ ha _
    refine ⟨fun _ _ hc => (by cases hc), ?_, fun _ _ _ hc => (by cases hc)⟩
    intro a' _ hout
    cases hout
    exact hpost.grow ha.log
  | put v rec =>
    refine Robust.bind ((robust_put ht hsilent).mono fun a l₁ s₁ _ hpost => ?_)
    intro s₂ ha _
    refine ⟨fun _ _ hc => (by cases hc), fun _ hc => (by cases hc), ?_⟩
    intro v' rec' a' hc hout
    cases hc
    cases hout
    exact putPost_stable a l₁ s₁ s₂ hpost ha.toLater

/-- After any interleaving of calls, faults and lost connections the
invariant holds and every returned call knows what it should. -/
theorem calls_ok (h : (Pool.empty init.server : Pool (machine e)).Reaches p) :
    PoolOk (discipline e init) (CallPost e init) p := by
  have hempty : ∀ {i st}, ¬ Pending init.server i st := by
    rintro i st ⟨tx, htx, -⟩
    cases htx
  have hinit : Ok init init.server :=
    { distinct := init.distinct
      rows := fun _ => rfl
      legit := trivial
      locks := fun hp => absurd hp hempty
      fits := fun hp => absurd hp hempty }
  refine PoolOk.reaches ?_ ?_ (PoolOk.empty hinit fun n x hx => by cases hx) h trivial
  · intro n c s l s' _ hsilent _ hs
    cases hs
    exact robust_prog c (Nat.le_refl _) hsilent
  · intro a b _ _
    trivial

/-- Call number `i` is `c` and returned `out`; `l` is its bookkeeping. -/
def Returned (p : Pool (machine e)) (i : Nat) (c : StoreCall) (out : StoreOutcome) (l : Loc) :
    Prop :=
  ∃ t : Thread (machine e), p.threads[i]? = some t ∧ t.call = c ∧ t.loc = l ∧
    t.prog.result? = some out

theorem Returned.post {i : Nat} {c : StoreCall} {out : StoreOutcome} {l : Loc}
    (h : (Pool.empty init.server : Pool (machine e)).Reaches p) (hret : Returned p i c out l) :
    CallPost e init i c out l p.shared := by
  obtain ⟨t, ht, rfl, rfl, hres⟩ := hret
  exact (calls_ok h).returned ht hres

/-- `Put` of the SQL store is a compare-and-swap on the version, for all
three dialects. In every run the table is what the logged writes made of
it; one version lets at most one Put of a key succeed; a Put that
succeeded found exactly that version (or no row, when creating) and put
its own row there at the next version; and a Put that reports
`ErrConflict` wrote nothing, and at an instant since it began the row was
not at the expected version. -/
theorem sql_put_swaps (h : (Pool.empty init.server : Pool (machine e)).Reaches p) :
    (∀ key, rowAt p.shared.rows key = rowAfter init p.shared.log key) ∧
    (∀ i j v rec rec' l l', Returned p i (.put v rec) (.done (.ok ())) l →
      Returned p j (.put v rec') (.done (.ok ())) l' → rec.key = rec'.key → i = j) ∧
    (∀ i v rec l, Returned p i (.put v rec) (.done (.ok ())) l →
      ∃ x ws, x :: ws <:+ p.shared.log ∧ l.started ≤ ws.length ∧ x.tid = i ∧
        Expects v (rowAfter init ws rec.key) ∧ x.after = putRow e v rec) ∧
    (∀ i v rec l, Returned p i (.put v rec) (.done (.error errConflict)) l →
      (∀ x ∈ p.shared.log, x.tid ≠ i) ∧
      ∃ ws, ws <:+ p.shared.log ∧ l.started ≤ ws.length ∧
        ¬ Expects v (rowAfter init ws rec.key)) := by
  have hok : Ok init p.shared := (calls_ok h).inv
  have hput : ∀ {i v rec a l}, Returned p i (.put v rec) (.done a) l →
      PutPost e init i v rec a l p.shared :=
    fun hret => (hret.post h).2.2 _ _ _ rfl rfl
  refine ⟨hok.rows, ?_, ?_, ?_⟩
  · intro i j v rec rec' l l' hi hj hkey
    obtain ⟨x, ws, hws, -, htid, hx, hafter⟩ := (hput hi).ok rfl
    obtain ⟨y, ws', hws', -, htid', hy, hafter'⟩ := (hput hj).ok rfl
    have hkeys : x.after.key = y.after.key := by
      rw [hafter, hafter']
      exact hkey
    have hxy := hok.legit.once (hws.subset List.mem_cons_self) (hws'.subset List.mem_cons_self)
      hkeys hx hy
    rw [← htid, ← htid', hxy]
  · intro i v rec l hret
    obtain ⟨x, ws, hws, hlo, htid, hx, hafter⟩ := (hput hret).ok rfl
    refine ⟨x, ws, hws, hlo, htid, ?_, hafter⟩
    rw [(hok.legit.suffix hws).1, hafter] at hx
    exact hx
  · intro i v rec l hret
    exact (hput hret).conflict rfl

/-- The SQL store's reads are of one instant since the call began: `Get`
returns the record of the row that was there then, or `ErrNotFound` when
there was none, and `List` one record for every row of the table. -/
theorem sql_reads_instant (h : (Pool.empty init.server : Pool (machine e)).Reaches p) :
    (∀ i key rec l, Returned p i (.get key) (.record (.ok rec)) l →
      ∃ ws row, ws <:+ p.shared.log ∧ l.started ≤ ws.length ∧
        rowAfter init ws key = some row ∧ SqlStore.scanRecord e.text row = .ok rec) ∧
    (∀ i key l, Returned p i (.get key) (.record (.error errNotFound)) l →
      ∃ ws, ws <:+ p.shared.log ∧ l.started ≤ ws.length ∧
        rowAfter init ws key = none) ∧
    (∀ i recs l, Returned p i .list (.records (.ok recs)) l →
      ∃ ws rows, ws <:+ p.shared.log ∧ l.started ≤ ws.length ∧
        Distinct rows ∧ (∀ key, rowAt rows key = rowAfter init ws key) ∧
        rows.mapM (SqlStore.scanRecord e.text) = .ok recs) := by
  refine ⟨?_, ?_, ?_⟩
  · intro i key rec l hret
    obtain ⟨ws, hws, hlo, row, hrow, hscan⟩ := ((hret.post h).1 _ _ rfl rfl).ok rec rfl
    exact ⟨ws, row, hws, hlo, hrow, hscan⟩
  · intro i key l hret
    exact ((hret.post h).1 _ _ rfl rfl).notFound rfl
  · intro i recs l hret
    obtain ⟨ws, hws, hlo, rows, hrows⟩ := ((hret.post h).2.1 _ rfl rfl).ok recs rfl
    exact ⟨ws, rows, hws, hlo, hrows⟩

end Runs

/-! ## A run -/

/-- An empty table. -/
def emptyTable : Initial := ⟨[], List.Pairwise.nil⟩

abbrev mysqlServer : Machine SqlSig := machine (sampleEngine .mysql)

def heldRow : Row := putRow (sampleEngine .mysql) 0 sampleHeld

/-- Two calls create the same lease. The second waits for the row of the
first, and a third reads meanwhile. -/
def racing : List (Action mysqlServer) :=
  [.spawn (.put 0 sampleHeld), .spawn (.put 0 sampleHeld), .spawn (.get sampleHeld.key),
   .exec 0 .answer, .exec 1 .answer, .exec 2 .answer, .exec 0 .answer,
   .exec 2 (.order []), .exec 0 .answer, .exec 1 .answer, .exec 0 .answer, .exec 1 .answer,
   .exec 2 .answer]

/-- The table is listed when all is done. -/
def listing : List (Action mysqlServer) :=
  [.spawn .list, .exec 3 .answer, .exec 3 (.order [heldRow]), .exec 3 .answer, .exec 3 .answer]

def raced : Pool mysqlServer :=
  (Pool.empty emptyTable.server).after (racing ++ listing) (by decide)

theorem reaches_raced : (Pool.empty emptyTable.server : Pool mysqlServer).Reaches raced :=
  Pool.reaches_after _

/-- The execution of the second call is not enabled before the first
commits. -/
example : ((Pool.empty emptyTable.server : Pool mysqlServer).run
    (racing.take 7 ++ [.exec 1 .answer])).isNone = true := by decide

theorem sql_put_swaps_raced :
    (∃ l, Returned raced 0 (.put 0 sampleHeld) (.done (.ok ())) l) ∧
      ∃ l, Returned raced 1 (.put 0 sampleHeld) (.done (.error errConflict)) l ∧
        ∀ x ∈ raced.shared.log, x.tid ≠ 1 := by
  have hfirst : ∃ l, Returned raced 0 (.put 0 sampleHeld) (.done (.ok ())) l :=
    ⟨_, _, rfl, rfl, rfl, rfl⟩
  obtain ⟨l, hsecond⟩ :
      ∃ l, Returned raced 1 (.put 0 sampleHeld) (.done (.error errConflict)) l :=
    ⟨_, _, rfl, rfl, rfl, rfl⟩
  exact ⟨hfirst, l, hsecond, ((sql_put_swaps reaches_raced).2.2.2 1 0 sampleHeld l hsecond).1⟩

theorem sql_reads_instant_raced :
    (∃ l, Returned raced 2 (.get sampleHeld.key) (.record (.error errNotFound)) l ∧
      ∃ ws, ws <:+ raced.shared.log ∧ rowAfter emptyTable ws sampleHeld.key = none) ∧
    ∃ recs l, recs.length = 1 ∧ Returned raced 3 .list (.records (.ok recs)) l ∧
      ∃ ws rows, ws <:+ raced.shared.log ∧
        (∀ key, rowAt rows key = rowAfter emptyTable ws key) ∧
        rows.mapM (SqlStore.scanRecord (sampleEngine .mysql).text) = .ok recs := by
  obtain ⟨l, hget⟩ :
      ∃ l, Returned raced 2 (.get sampleHeld.key) (.record (.error errNotFound)) l :=
    ⟨_, _, rfl, rfl, rfl, rfl⟩
  obtain ⟨recs, l', hlen, hlist⟩ :
      ∃ recs l, recs.length = 1 ∧ Returned raced 3 .list (.records (.ok recs)) l :=
    ⟨_, _, rfl, _, rfl, rfl, rfl, rfl⟩
  have hreads := sql_reads_instant reaches_raced
  obtain ⟨ws, hws, -, hnone⟩ := hreads.2.1 2 sampleHeld.key l hget
  obtain ⟨ws', rows, hws', -, -, hrows, hscan⟩ := hreads.2.2 3 recs l' hlist
  exact ⟨⟨l, hget, ws, hws, hnone⟩, recs, l', hlen, hlist, ws', rows, hws', hrows, hscan⟩

end Berth.Lease.Sql
