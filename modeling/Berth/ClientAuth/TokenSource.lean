/-
Berth.ClientAuth.TokenSource — the operator's token, from a file that a
broker writes (`internal/clientauth/tokensource.go`).

`FileTokenSource` is a cache over the token file: a read that fails or
finds nothing but blanks leaves the token from before in place, and is
tried again by the next call. The file is on a volume that brokers write
to (`Broker/Disk.lean`); they go on while the operator reads.

The file is read at one moment. A broker replaces it by a rename, so a
reader that has it open goes on reading the file it opened.
-/
import Berth.Acquire.Config
import Berth.Broker.DiskTheorems
import Berth.Cache.TtlTheorems

namespace Berth.ClientAuth

open Berth.Acquire (trimSpace)
open Berth.Broker Berth.Cache Berth.Files Berth.Interleave Berth.Lease

/-! ## The source -/

/-- What `NewFileTokenSource` makes sure of. -/
structure FileTokenSource where
  path : String
  cacheTTL : Duration
  named : path ≠ ""
  positive : 0 < cacheTTL

/-- `FileTokenSource.readLocked`, from what `os.ReadFile` returns. -/
def readLocked (data : Except Err String) : Except Err String :=
  match data with
  | .error e => .error e
  | .ok data =>
    let tok := trimSpace data
    if tok = "" then .error (.new "token source: file is empty") else .ok tok

theorem second_pos : 0 < second := by decide

/-- A TTL that is not positive is one second. -/
theorem cacheTTL_pos (cacheTTL : Duration) : 0 < (if cacheTTL ≤ 0 then second else cacheTTL) := by
  split
  · exact second_pos
  · next h => exact Int.not_le.mp h

/-- `NewFileTokenSource`: the source and its first token, from what
`os.ReadFile` returns. -/
def newFileTokenSource (path : String) (cacheTTL : Duration) (data : Except Err String) :
    Except Err (FileTokenSource × String) :=
  if hpath : path = "" then .error (.new "token source: file path is required")
  else do
    let tok ← readLocked data
    let ttl := if cacheTTL ≤ 0 then second else cacheTTL
    return (⟨path, ttl, hpath, cacheTTL_pos cacheTTL⟩, tok)

/-- `os.ReadFile` on the volume; a read may fail for reasons of its own. -/
def readFile {lc : LoopConfig} (fault : Option Err) (path : String)
    (w : Pool (Broker.machine lc)) : Except Err String :=
  match fault with
  | some e => .error e
  | none =>
    match tokenText path w.shared.disk with
    | none => .error (.new "no such file or directory")
    | some text => .ok text

/-! ## Operator and brokers -/

/-- An operator and brokers that share a volume. -/
structure Sidecar where
  ts : FileTokenSource
  lc : LoopConfig
  disk : Directory
  now : Time
  /-- The operator reads what the brokers write. -/
  shared : ts.path = lc.outputPath
  distinct : ¬ TempLike lc.outputPath

/-- `FileTokenSource.Get` over the volume. -/
def Sidecar.source (S : Sidecar) : Design where
  World := Pool (Broker.machine S.lc)
  Event := Action (Broker.machine S.lc)
  Choice := Option Err
  Answer := Except Err String
  Value := String
  ttl := S.ts.cacheTTL
  zero := ""
  accept := Except.toOption
  evolve := fun a w => w.step a
  look := fun fault w => readLocked (readFile fault S.ts.path w)

/-- The volume before any broker has run. -/
abbrev Sidecar.fresh (S : Sidecar) : Pool (Broker.machine S.lc) := freshBrokers S.lc S.disk S.now

/-- The first read, by `NewFileTokenSource`. -/
structure Warm (S : Sidecar) where
  world : Pool (Broker.machine S.lc)
  fault : Option Err
  cacheTTL : Duration
  tok : String
  start : Time
  finish : Time
  stamp : Time
  reached : S.fresh.Reaches world
  made : newFileTokenSource S.ts.path cacheTTL (readFile fault S.ts.path world) = .ok (S.ts, tok)
  ordered : start ≤ finish ∧ finish ≤ stamp

/-- The fetch that the first read is. -/
def Warm.fetch {S : Sidecar} (W : Warm S) : Fetch S.source :=
  ⟨W.start, W.finish, W.world, .ok W.tok, some W.stamp⟩

/-- The source when it is handed out. -/
def Warm.state {S : Sidecar} (W : Warm S) : State S.source where
  world := W.world
  clock := W.stamp
  owner := none
  cached := some (W.tok, W.stamp)
  asked := none
  log := [W.fetch]

/-- Any number of calls of `Get`. -/
abbrev Warm.pool {S : Sidecar} (W : Warm S) : Pool (Cache.machine S.source) := Pool.empty W.state

/-! ## Reads -/

section Reads

variable {S : Sidecar} {W : Warm S} {p q : Pool (Cache.machine S.source)} {f : Fetch S.source}
variable {v : String} {data : Except Err String}

theorem readLocked_ok (h : readLocked data = .ok v) :
    ∃ text, data = .ok text ∧ v = trimSpace text ∧ v ≠ "" := by
  unfold readLocked at h
  split at h
  · cases h
  rename_i text
  simp only at h
  split at h
  · cases h
  · next hne =>
    cases h
    exact ⟨text, rfl, rfl, hne⟩

theorem readFile_ok {fault : Option Err} {path text : String} {w : Pool (Broker.machine S.lc)}
    (h : readFile fault path w = .ok text) : tokenText path w.shared.disk = some text := by
  unfold readFile at h
  split at h
  · cases h
  split at h
  · cases h
  · next heq =>
    cases h
    exact heq

/-- The first token is what the file holds. -/
theorem newFileTokenSource_ok {path : String} {cacheTTL : Duration} {ts : FileTokenSource}
    (h : newFileTokenSource path cacheTTL data = .ok (ts, v)) : readLocked data = .ok v := by
  unfold newFileTokenSource at h
  split at h
  · cases h
  cases hread : readLocked data with
  | error e =>
    rw [hread] at h
    cases h
  | ok tok =>
    rw [hread] at h
    cases h
    rfl

/-- The text is a token that the provider has issued, or was in the token
file before any broker ran. -/
def Sidecar.Genuine (S : Sidecar) (w : Pool (Broker.machine S.lc)) (text : String) : Prop :=
  text ∈ w.shared.issued ∨ tokenText S.ts.path S.disk = some text

/-- What a read finds is what was published last, and it is genuine. -/
theorem read_published {fault : Option Err} {w : Pool (Broker.machine S.lc)}
    (hw : S.fresh.Reaches w) (h : readLocked (readFile fault S.ts.path w) = .ok v) :
    ∃ text, w.shared.published.head? = some text ∧ S.Genuine w text ∧ v = trimSpace text ∧
      v ≠ "" := by
  obtain ⟨text, hdata, hv, hne⟩ := readLocked_ok h
  obtain ⟨f, hf, rfl⟩ := Option.map_eq_some_iff.mp (readFile_ok hdata)
  rw [S.shared] at hf
  obtain ⟨hhead, hwhole⟩ := (later_reaches S.distinct .refl hw).token_file hf
  refine ⟨f.content, hhead, ?_, hv, hne⟩
  rcases hwhole with hfound | hdone
  · refine .inr ?_
    rw [tokenText, S.shared, hfound]
    rfl
  · exact .inl hdone.1

theorem accept_eq {a : Except Err String} (h : S.source.accept a = some v) : a = .ok v := by
  cases a with
  | error e => cases h
  | ok tok =>
    cases h
    rfl

theorem warm_inv (W : Warm S) : Inv W.state where
  apart := List.pairwise_singleton _ _
  past := by
    refine List.forall_mem_singleton.mpr ⟨W.ordered.1, W.ordered.2, fun c hc => ?_⟩
    cases hc
    exact ⟨W.ordered.2, Int.le_refl _⟩
  seen := List.forall_mem_singleton.mpr ⟨.refl, W.fault, (newFileTokenSource_ok W.made).symm⟩
  asked := fun t ht => by cases ht
  free := fun _ => ⟨rfl, List.forall_mem_singleton.mpr fun _ => by simp [Warm.fetch]⟩
  tail := fun f hf => by cases hf
  backed := fun v c hc => by
    cases hc
    exact ⟨W.fetch, List.mem_singleton_self _, ⟨rfl, rfl⟩,
      List.forall_mem_singleton.mpr fun _ => .refl⟩
  newest := List.forall_mem_singleton.mpr fun c hc => by
    cases hc
    exact ⟨_, _, rfl, Int.le_refl _⟩

theorem source_ok (h : W.pool.Reaches p) : PoolOk (Cache.discipline S.source) (fun _ _ => Post) p :=
  poolOk_reaches S.ts.positive (warm_inv W) rfl h

end Reads

/-! ## Calls -/

section Calls

variable {S : Sidecar} {W : Warm S} {p q : Pool (Cache.machine S.source)} {i j : Nat}
variable {t u : Thread (Cache.machine S.source)} {v v' : String}

/-- A call returns what some read found, and the volume had moved on from
what the call's predecessors had seen. -/
theorem get_read (h : W.pool.Reaches p) (hpq : p.Reaches q) {f : Fetch S.source}
    (hf : f ∈ p.shared.log) (hstamp : f.stamp ≠ none) (hw : S.fresh.Reaches f.world)
    (hj : p.threads.length ≤ j) (hu : q.threads[j]? = some u) (hv : u.prog.result? = some v) :
    ∃ g ∈ q.shared.log, ∃ text, g.stamp ≠ none ∧ f.world.Reaches g.world ∧
      g.world.Reaches q.shared.world ∧ g.world.shared.published.head? = some text ∧
      S.Genuine g.world text ∧ v = trimSpace text ∧ v ≠ "" := by
  have hok : ∀ {a}, p.Reaches a → PoolOk (Cache.discipline S.source) (fun _ _ => Post) a :=
    fun ha => source_ok (h.trans ha)
  obtain ⟨g, hg, c, hstamped, hlater⟩ := returned_after hok hpq hf hstamp hj hu hv
  obtain ⟨hseen, fault, hlook⟩ := (hok hpq).inv.seen g hg
  have hread : readLocked (readFile fault S.ts.path g.world) = .ok v :=
    hlook.symm.trans (accept_eq hstamped.value)
  have hgw : S.fresh.Reaches g.world := hw.trans hlater
  obtain ⟨text, htext⟩ := read_published hgw hread
  exact ⟨g, hg, text, hstamped.kept, hlater, hseen, htext⟩

/-- Every token that a call returns was issued by the provider, or was in
the file before any broker ran, as a whole: whatever the brokers are doing
and wherever they were stopped. -/
theorem get_issued (h : W.pool.Reaches p) (ht : p.threads[i]? = some t)
    (hv : t.prog.result? = some v) :
    ∃ text, (text ∈ p.shared.world.shared.issued ∨ tokenText S.ts.path S.disk = some text) ∧
      v = trimSpace text ∧ v ≠ "" := by
  obtain ⟨g, -, text, -, hlater, hseen, -, hgenuine, hv, hne⟩ :=
    get_read .refl h (f := W.fetch) (List.mem_singleton_self _) (by simp [Warm.fetch]) W.reached
      (Nat.zero_le i) ht hv
  have hg : S.fresh.Reaches g.world := W.reached.trans hlater
  have hissued := (later_reaches S.distinct hg hseen).issued
  exact ⟨text, hgenuine.imp_left fun hmem => hissued hmem, hv, hne⟩

/-- Tokens never go back: a call that begins when another has returned
returns a token that was published no earlier. -/
theorem get_in_order (h : W.pool.Reaches p) (hpq : p.Reaches q) (ht : p.threads[i]? = some t)
    (hv : t.prog.result? = some v) (hj : p.threads.length ≤ j) (hu : q.threads[j]? = some u)
    (hv' : u.prog.result? = some v') :
    ∃ older newer, older <:+ newer ∧ newer <:+ q.shared.world.shared.published ∧
      older.head?.map trimSpace = some v ∧ newer.head?.map trimSpace = some v' := by
  obtain ⟨f, hf, text, hstamp, hlater, -, hhead, -, htext, -⟩ :=
    get_read .refl h (f := W.fetch) (List.mem_singleton_self _) (by simp [Warm.fetch]) W.reached
      (Nat.zero_le i) ht hv
  have hfw : S.fresh.Reaches f.world := W.reached.trans hlater
  obtain ⟨g, -, text', -, hlater', hseen', hhead', -, htext', -⟩ :=
    get_read h hpq hf hstamp hfw hj hu hv'
  refine ⟨f.world.shared.published, g.world.shared.published,
    (later_reaches S.distinct hfw hlater').suffix,
    (later_reaches S.distinct (hfw.trans hlater') hseen').suffix, ?_, ?_⟩
  · rw [hhead, htext]
    rfl
  · rw [hhead', htext']
    rfl

/-- The stamp that a token's read has left was less than `cacheTTL` old when
the call looked at the clock, or is later, unless the call's own read
failed. -/
theorem get_recent (h : W.pool.Reaches p) (ht : p.threads[i]? = some t)
    (hv : t.prog.result? = some v) {reading : Time} (hreading : t.loc.reading = some reading) :
    (∃ f ∈ p.shared.log, ∃ stamp, f.answer = .ok v ∧ f.stamp = some stamp ∧ f.finish ≤ stamp ∧
      reading < stamp + S.ts.cacheTTL) ∨
    ∃ f ∈ p.shared.log, ∃ e, f.answer = .error e ∧ reading ≤ f.start := by
  have hok := source_ok h
  rcases hok.returned ht hv with ⟨r, f, c, hr, hf, hstamped, hlt, -⟩ | ⟨f, hf, hfail, hstart, -⟩
  · have heq : r = reading := Option.some.inj (hr.symm.trans hreading)
    refine .inl ⟨f, hf, c, accept_eq hstamped.value, hstamped.stamp, ?_, heq ▸ hlt⟩
    exact ((hok.inv.past f hf).2.2 c hstamped.stamp).1
  · refine .inr ⟨f, hf, ?_⟩
    cases ha : f.answer with
    | error e => exact ⟨e, rfl, hstart reading hreading⟩
    | ok tok =>
      rw [ha] at hfail
      cases hfail

end Calls

/-! ## A run -/

/-- The broker and the operator of the documentation's example. -/
def sampleSidecar : Sidecar where
  ts := ⟨"/var/run/berth/token", second, by decide, second_pos⟩
  lc := sample (60 * second) minute_int64
  disk := Directory.empty
  now := 0
  shared := rfl
  distinct := by decide

/-- The operator starts when the first token is there. -/
def sampleWarm : Warm sampleSidecar where
  world := tokenWritten
  fault := none
  cacheTTL := 0
  tok := "jwt-1"
  start := 0
  finish := 0
  stamp := 5
  reached := Pool.reaches_after _
  made := by
    have hread : readLocked (readFile none "/var/run/berth/token" tokenWritten) = .ok "jwt-1" := by
      decide
    simp only [newFileTokenSource, sampleSidecar]
    rw [hread]
    rfl
  ordered := by decide

abbrev sampleSource : Machine (sig sampleSidecar.source) := Cache.machine sampleSidecar.source

/-- Call `i` goes on for `n` steps, and every read succeeds. -/
def calling (i n : Nat) : List (Action sampleSource) := List.replicate n (.exec i none)

/-- The first call finds its token fresh. -/
def firstCall : List (Action sampleSource) := .spawn () :: calling 0 4

def askedOnce : Pool sampleSource := sampleWarm.pool.after firstCall (by decide)

/-- The broker writes its second token. -/
def rotating : List (Action sampleSource) :=
  let waiting : List (Action (Broker.machine sampleSidecar.lc)) :=
    [.exec 1 .ok, .exec 1 (.flag true)]
  (waiting ++ publishing 1 "jwt-2\n" 2).map fun a => .env (.world a)

/-- The second call reads the file again. -/
def secondCall : List (Action sampleSource) :=
  [.env (.tick 2000000000), .spawn ()] ++ calling 1 8

def askedTwice : Pool sampleSource :=
  askedOnce.after (rotating ++ secondCall) (by decide)

theorem reaches_askedOnce : sampleWarm.pool.Reaches askedOnce := Pool.reaches_after _

theorem askedOnce_reaches : askedOnce.Reaches askedTwice := Pool.reaches_after _

theorem askedOnce_returned :
    ∃ t, askedOnce.threads[0]? = some t ∧ t.prog.result? = some "jwt-1" := by
  have h : (askedOnce.threads[0]?.bind fun t => t.prog.result?) = some "jwt-1" := by decide
  exact Option.bind_eq_some_iff.mp h

theorem askedTwice_returned :
    ∃ t, askedTwice.threads[1]? = some t ∧ t.prog.result? = some "jwt-2" := by
  have h : (askedTwice.threads[1]?.bind fun t => t.prog.result?) = some "jwt-2" := by decide
  exact Option.bind_eq_some_iff.mp h

theorem get_issued_askedTwice :
    ∃ text, (text ∈ askedTwice.shared.world.shared.issued ∨
        tokenText "/var/run/berth/token" Directory.empty = some text) ∧
      "jwt-2" = trimSpace text ∧ "jwt-2" ≠ "" := by
  obtain ⟨t, ht, hv⟩ := askedTwice_returned
  exact get_issued (reaches_askedOnce.trans askedOnce_reaches) ht hv

theorem get_in_order_askedTwice :
    ∃ older newer, older <:+ newer ∧ newer <:+ askedTwice.shared.world.shared.published ∧
      older.head?.map trimSpace = some "jwt-1" ∧ newer.head?.map trimSpace = some "jwt-2" := by
  obtain ⟨t, ht, hv⟩ := askedOnce_returned
  obtain ⟨u, hu, hv'⟩ := askedTwice_returned
  have hlen : askedOnce.threads.length ≤ 1 := by decide
  exact get_in_order reaches_askedOnce askedOnce_reaches ht hv hlen hu hv'

theorem get_recent_askedOnce :
    (∃ f ∈ askedOnce.shared.log, ∃ stamp, f.answer = .ok "jwt-1" ∧ f.stamp = some stamp ∧
      f.finish ≤ stamp ∧ 5 < stamp + second) ∨
    ∃ f ∈ askedOnce.shared.log, ∃ e, f.answer = .error e ∧ 5 ≤ f.start := by
  obtain ⟨t, ht, hv⟩ := askedOnce_returned
  have hreading : askedOnce.threads[0]?.bind (fun t => Caller.reading t.loc) = some 5 := by
    decide
  rw [ht, Option.bind_some] at hreading
  exact get_recent reaches_askedOnce ht hv hreading

end Berth.ClientAuth
