/-
Berth.Server.LinearTheorems — `Manager.Acquire` takes effect at one
instant.

`acquireAtOnce` is the purpose of the call, without reads, retries or
races: the case analysis on the stored record at one clock reading. In
every run an Acquire that returns without error is `acquireAtOnce` at one
of its own moments: the read that found another holder, or the write that
went through (`acquire_linearizable`). The walk is along the retry loop;
each round that loses its compare-and-swap has at least one foreign write
between its read and its write, which is what the count rests on.
-/
import Berth.Server.RunTheorems

namespace Berth.Server

open Berth.Interleave Berth.Lease

/-! ## The call at one instant -/

/-- What `Manager.Acquire` is for: its answer, and the record stored
afterwards, when nothing else happens meanwhile. -/
def acquireAtOnce (key : Key) (holder : String) (ttl : Duration) (cur : Option Record)
    (now : Time) : Except Err AcquireResult × Option Record :=
  match cur with
  | none =>
    (.ok { acquired := true, holder := holder, fencingToken := 1
           expiresAt := now + ttl, acquiredAt := now },
      some { key := key, holder := holder, ttl := ttl, acquiredAt := now, renewedAt := now
             fencingToken := 1, version := 1 })
  | some r =>
    if r.holder = holder ∧ now ≤ r.expiresAt then
      (.ok { acquired := true, holder := holder, fencingToken := r.fencingToken
             expiresAt := now + ttl, acquiredAt := r.acquiredAt },
        some { r with ttl := ttl, renewedAt := now, version := r.version + 1 })
    else if r.holder = "" ∨ r.expiresAt < now then
      if r.fencingToken = maxInt32 then
        (.error (.new ("acquire: fencing token for " ++ key.ns ++ "/" ++ key.name ++
          " exhausted at int32 ceiling (2147483647); lease cannot be safely reacquired")), some r)
      else
        (.ok { acquired := true, holder := holder, fencingToken := r.fencingToken + 1
               expiresAt := now + ttl, acquiredAt := now },
          some { key := key, holder := holder, ttl := ttl, acquiredAt := now, renewedAt := now
                 fencingToken := r.fencingToken + 1, version := r.version + 1 })
    else
      (.ok { acquired := false, holder := r.holder, fencingToken := r.fencingToken
             expiresAt := r.expiresAt, acquiredAt := r.acquiredAt }, some r)

section AtOnce

variable {key : Key} {holder : String} {ttl : Duration} {cur : Option Record} {now : Time}

/-- The version a claim expects is the one that was read. -/
theorem decideAcquire_version {v tok : Int} {acq : Time}
    (h : Manager.decideAcquire cur holder now = .claim v tok acq) :
    v = (cur.map Record.version).getD 0 := by
  cases cur with
  | none =>
    cases h
    rfl
  | some r =>
    simp only [Manager.decideAcquire] at h
    split at h
    · cases h
      rfl
    split at h
    · split at h
      · cases h
      · cases h
        rfl
    · cases h

theorem atOnce_claim {v tok : Int} {acq : Time} (hk : ∀ r, cur = some r → r.key = key)
    (h : Manager.decideAcquire cur holder now = .claim v tok acq) :
    acquireAtOnce key holder ttl cur now =
      (.ok ((⟨key, holder, ttl, acq, now, tok, 0⟩ : Record).toResult true),
        some ⟨key, holder, ttl, acq, now, tok, v + 1⟩) := by
  cases cur with
  | none =>
    cases h
    rfl
  | some r =>
    have hrk := hk r rfl
    simp only [Manager.decideAcquire, Bool.and_eq_true, beq_iff_eq, Bool.not_eq_true',
      Record.expired_eq_false_iff, Bool.or_eq_true, Record.tombstone_iff, Record.expired_iff] at h
    simp only [acquireAtOnce]
    split at h
    · next hmine =>
      cases h
      rw [if_pos hmine, ← hrk, ← hmine.1]
      rfl
    · next hmine =>
      rw [if_neg hmine]
      split at h
      · next hfree =>
        rw [if_pos hfree]
        split at h
        · cases h
        rename_i hmax
        cases h
        rw [if_neg hmax]
        rfl
      · cases h

theorem atOnce_heldBy {r : Record} (h : Manager.decideAcquire cur holder now = .heldBy r) :
    acquireAtOnce key holder ttl cur now = (.ok (r.toResult false), cur) := by
  cases cur with
  | none => cases h
  | some r' =>
    simp only [Manager.decideAcquire, Bool.and_eq_true, beq_iff_eq, Bool.not_eq_true',
      Record.expired_eq_false_iff, Bool.or_eq_true, Record.tombstone_iff, Record.expired_iff] at h
    simp only [acquireAtOnce]
    split at h
    · cases h
    rename_i hmine
    rw [if_neg hmine]
    split at h
    · split at h
      · cases h
      · cases h
    · next hfree =>
      cases h
      rw [if_neg hfree]
      rfl

end AtOnce

/-! ## Moments of a call -/

/-- The store answers, or with one of its two sentinels. -/
def honest : Event StoreSig → Bool
  | ⟨.get _, .error e⟩ => e.is .notFound
  | ⟨.list, .error _⟩ => false
  | ⟨.put _ _, .error e⟩ => e.is .conflict
  | _ => true

def reading? : Event StoreSig → Option Time
  | ⟨.now, t⟩ => some t
  | _ => none

variable {cfg : Config} {i : Nat} {ms ms' : List (Moment (machine cfg))} {w w' : World}
variable {key : Key} {holder : String} {ttl : Duration} {res : AcquireResult}
variable {m : Moment (machine cfg)} {a : Except Err AcquireResult}

/-- The clock readings of thread `i`. -/
def readings (i : Nat) (ms : List (Moment (machine cfg))) : List Time :=
  (events i ms).filterMap reading?

/-- Thread `i` writes nothing. -/
def Reads (i : Nat) (ms : List (Moment (machine cfg))) : Prop :=
  ∀ m ∈ ms, m.tid = i → m.after.store = m.before.store

/-- The writes of other threads on a key. -/
def foreignWrites (i : Nat) (key : Key) (ms : List (Moment (machine cfg))) : Nat :=
  ms.countP fun m => decide (m.tid ≠ i ∧ Changes key m)

/-- Among `ms`, thread `i` does at one moment what `acquireAtOnce` does
with its last clock reading, and nothing else. -/
def TakesEffect (i : Nat) (ms : List (Moment (machine cfg))) (key : Key) (holder : String)
    (ttl : Duration) (res : AcquireResult) : Prop :=
  ∃ pre m post now, ms = pre ++ m :: post ∧ m.tid = i ∧ (readings i ms).getLast? = some now ∧
    acquireAtOnce key holder ttl (m.before.store.lookup key) now =
      (.ok res, m.after.store.lookup key) ∧
    (∀ k, k ≠ key → m.after.store.lookup k = m.before.store.lookup k) ∧ Reads i (pre ++ post)

/-- At least `n` foreign writes on the key between two operations of
thread `i`. -/
def Overrun (i : Nat) (ms : List (Moment (machine cfg))) (key : Key) (n : Nat) : Prop :=
  ∃ pre first mid last post, ms = pre ++ first :: (mid ++ last :: post) ∧ first.tid = i ∧
    last.tid = i ∧ n ≤ foreignWrites i key mid

@[simp] theorem readings_append : readings i (ms ++ ms') = readings i ms ++ readings i ms' := by
  unfold readings
  rw [events_append, List.filterMap_append]

theorem readings_cons_own (h : m.tid = i) :
    readings i (m :: ms) = (reading? m.event).toList ++ readings i ms := by
  unfold readings
  rw [events_cons_own h, List.filterMap_cons]
  cases reading? m.event <;> rfl

theorem readings_others (h : ∀ m ∈ ms, m.tid ≠ i) : readings i ms = [] := by
  unfold readings
  rw [events_others h, List.filterMap_nil]

@[simp] theorem reads_append : Reads i (ms ++ ms') ↔ Reads i ms ∧ Reads i ms' :=
  List.forall_mem_append

@[simp] theorem reads_cons :
    Reads i (m :: ms) ↔ (m.tid = i → m.after.store = m.before.store) ∧ Reads i ms :=
  List.forall_mem_cons

theorem reads_others (h : ∀ m ∈ ms, m.tid ≠ i) : Reads i ms :=
  fun m hm heq => absurd heq (h m hm)

@[simp] theorem foreignWrites_append :
    foreignWrites i key (ms ++ ms') = foreignWrites i key ms + foreignWrites i key ms' :=
  List.countP_append

theorem foreignWrites_le_cons (m : Moment (machine cfg)) :
    foreignWrites i key ms ≤ foreignWrites i key (m :: ms) :=
  (List.sublist_cons_self m ms).countP_le

theorem foreignWrites_pos (hm : m ∈ ms) (hi : m.tid ≠ i) (hc : Changes key m) :
    1 ≤ foreignWrites i key ms :=
  List.countP_pos_iff.mpr ⟨m, hm, decide_eq_true ⟨hi, hc⟩⟩

/-- What came before and wrote nothing does not matter. -/
theorem TakesEffect.prepend (hr : Reads i ms) (h : TakesEffect i ms' key holder ttl res) :
    TakesEffect i (ms ++ ms') key holder ttl res := by
  obtain ⟨pre, m, post, now, rfl, hm, hnow, hat, hkeys, hreads⟩ := h
  refine ⟨ms ++ pre, m, post, now, by simp, hm, ?_, hat, hkeys, ?_⟩
  · rw [readings_append, List.getLast?_append, hnow]
    rfl
  · rw [List.append_assoc, reads_append]
    exact ⟨hr, hreads⟩

/-- Two rounds, one after the other. -/
theorem Overrun.prepend {n : Nat} {first last : Moment (machine cfg)}
    {pre mid : List (Moment (machine cfg))} (hf : first.tid = i)
    (hmid : 1 ≤ foreignWrites i key mid) (h : Overrun i ms key n) :
    Overrun i (pre ++ first :: (mid ++ last :: ms)) key (n + 1) := by
  obtain ⟨pre', first', mid', last', post, rfl, -, hl, hcount⟩ := h
  refine ⟨pre, first, mid ++ last :: (pre' ++ first' :: mid'), last', post, by simp, hf, hl, ?_⟩
  have h₁ : foreignWrites i key mid' ≤ foreignWrites i key (first' :: mid') :=
    foreignWrites_le_cons first'
  have h₂ : foreignWrites i key (pre' ++ first' :: mid') ≤
      foreignWrites i key (last :: (pre' ++ first' :: mid')) := foreignWrites_le_cons last
  simp only [foreignWrites_append] at h₂ ⊢
  omega

/-! ## One round -/

/-- An honest store's answer to a read. -/
theorem Genuine.honest_get {r : Except Err Record} (h : Genuine m) (ht : Told i (.get key) r m)
    (hh : honest m.event = true) : r = m.before.store.get key := by
  rcases (h.told_get ht).2 with hr | ⟨e, rfl, hfault⟩
  · exact hr
  · rw [ht.2] at hh
    have hnf := (backendFault_iff.mp hfault).1
    exact absurd (hh.symm.trans hnf) (by decide)

/-- An honest store's answer to a write: it went through or was refused. -/
theorem Genuine.honest_put {v : Int} {rec : Record} {r : Except Err Unit} (h : Genuine m)
    (ht : Told i (.put v rec) r m) (hh : honest m.event = true) :
    (r = .ok () ∧ MemStore.permits (m.before.store.lookup rec.key) v = true ∧
      ∀ k, m.after.store.lookup k =
        if rec.key = k then some { rec with version := v + 1 } else m.before.store.lookup k) ∨
    (r = .error errConflict ∧ MemStore.permits (m.before.store.lookup rec.key) v = false ∧
      m.after.store = m.before.store) := by
  have hno : ¬ ∃ e, r = .error e ∧ backendFault e = true := by
    rintro ⟨e, rfl, hfault⟩
    rw [ht.2] at hh
    have hc := (backendFault_iff.mp hfault).2
    exact absurd (hh.symm.trans hc) (by decide)
  rcases h.told_put ht with ⟨hp, hr, hstore⟩ | ⟨hsame, hr⟩
  · exact .inl ⟨hr.resolve_right hno, hp, hstore⟩
  · obtain ⟨hr, hp⟩ := hr.resolve_right hno
    exact .inr ⟨hr, hp, hsame⟩

/-- How one round of the loop ends, when it has read `cur`. -/
inductive RoundEnds (i : Nat) (key : Key) (holder : String) (ttl : Duration) (w w' : World)
    (retry : Prog StoreSig (Except Err AcquireResult)) (ms : List (Moment (machine cfg))) :
    Except Err AcquireResult → Prop where
  | held {r : Record} {now : Time} (reads : Reads i ms) (reading : readings i ms = [now])
      (at_once : acquireAtOnce key holder ttl (w.store.lookup key) now =
        (.ok (r.toResult false), w.store.lookup key)) : RoundEnds i key holder ttl w w' retry ms
        (.ok (r.toResult false))
  | ceiling {e : Err} (reads : Reads i ms) (named : e ≠ .new "acquire: exhausted retries") :
      RoundEnds i key holder ttl w w' retry ms (.error e)
  | written {res : AcquireResult} (effect : TakesEffect i ms key holder ttl res) :
      RoundEnds i key holder ttl w w' retry ms (.ok res)
  | lost {a : Except Err AcquireResult} {mid post : List (Moment (machine cfg))}
      {m : Moment (machine cfg)} (split : ms = mid ++ m :: post) (own : m.tid = i)
      (reads : Reads i (mid ++ [m])) (foreign : 1 ≤ foreignWrites i key mid)
      (rest : Follows i retry post (.ret a)) (stretch : Stretch cfg m.after post w') :
      RoundEnds i key holder ttl w w' retry ms a

/-- The ceiling's message is not the loop's. -/
theorem ceiling_ne (a : String) :
    Err.new ("acquire: fencing token for " ++ a) ≠ .new "acquire: exhausted retries" := by
  intro h
  have htext := congrArg (fun e => (Err.text e).toList.take 10) h
  simp [Err.text, String.toList_append] at htext

theorem round_ends {retry : Prog StoreSig (Except Err AcquireResult)} (hs : Stretch cfg w ms w')
    (hhonest : ∀ m ∈ ms, m.tid = i → honest m.event = true)
    (h : Follows i (Manager.acquireAttempt key holder ttl (w.store.lookup key) retry) ms (.ret a)) :
    RoundEnds i key holder ttl w w' retry ms a := by
  obtain ⟨hnone, -⟩ | ⟨pre, m, now, ms₁, rfl, hpre, hm, h₁⟩ := follows_now h
  · cases hnone
  obtain ⟨hs₀, hnow, hs₁⟩ := hs.of_append_cons
  have hread : Reads i (pre ++ [m]) := by
    rw [reads_append, reads_cons]
    exact ⟨reads_others hpre, fun _ => hnow.told_now hm, List.forall_mem_nil _⟩
  have hreading : readings i (pre ++ [m]) = [now] := by
    rw [readings_append, readings_others hpre, readings_cons_own hm.1, hm.2]
    rfl
  rw [List.append_cons] at hs hhonest ⊢
  cases hd : Manager.decideAcquire (w.store.lookup key) holder now with
  | heldBy r =>
    simp only [hd] at h₁
    obtain ⟨heq, hms₁⟩ := Follows.of_ret h₁
    cases heq
    refine .held (reads_append.mpr ⟨hread, reads_others hms₁⟩) ?_ (atOnce_heldBy hd)
    rw [readings_append, hreading, readings_others hms₁, List.append_nil]
  | exhausted =>
    simp only [hd] at h₁
    obtain ⟨heq, hms₁⟩ := Follows.of_ret h₁
    cases heq
    refine .ceiling (reads_append.mpr ⟨hread, reads_others hms₁⟩) ?_
    rw [String.append_assoc, String.append_assoc, String.append_assoc]
    exact ceiling_ne _
  | claim v tok acq =>
    simp only [hd] at h₁
    obtain ⟨hnone, -⟩ | ⟨pre₂, p, r, ms₂, rfl, hpre₂, hp, h₂⟩ := follows_put h₁
    · cases hnone
    have hv := decideAcquire_version hd
    rw [← List.append_assoc (pre ++ [m])] at hs hhonest ⊢
    obtain ⟨hsp, hput, hs₂⟩ := hs.of_append_cons
    have hkeep : Reads i (pre ++ [m] ++ pre₂) := reads_append.mpr ⟨hread, reads_others hpre₂⟩
    have hown := hhonest p (List.mem_append_right _ List.mem_cons_self) hp.1
    rcases hput.honest_put hp hown with ⟨rfl, hperm, hstore⟩ | ⟨rfl, hperm, hsame⟩
    · have hcur : p.before.store.lookup key = w.store.lookup key := by
        rw [← hsp.permits_iff, ← hv]
        exact hperm
      obtain ⟨heq, hms₂⟩ := Follows.of_ret h₂
      cases heq
      refine .written ⟨pre ++ [m] ++ pre₂, p, ms₂, now, rfl, hp.1, ?_, ?_, ?_, ?_⟩
      · rw [readings_append, readings_append, readings_cons_own hp.1, hreading,
          readings_others hpre₂, readings_others hms₂, hp.2]
        rfl
      · rw [hcur, hstore, if_pos rfl]
        exact atOnce_claim (fun r hr => (hs.filled _ _ hr).1) hd
      · intro k hk
        rw [hstore, if_neg (Ne.symm hk)]
      · exact reads_append.mpr ⟨hkeep, reads_others hms₂⟩
    · have hne : p.before.store.lookup key ≠ w.store.lookup key := by
        intro heq
        have := hsp.permits_iff.mpr heq
        rw [← hv] at this
        exact absurd (this.symm.trans hperm) (by decide)
      obtain ⟨x, hx, hchange⟩ := hsp.exists_changes hne
      have hforeign : x.tid ≠ i := fun hi => hchange (by rw [hkeep x hx hi])
      refine .lost rfl hp.1 ?_ (foreignWrites_pos hx hforeign hchange) h₂ hs₂
      rw [reads_append, reads_cons]
      exact ⟨hkeep, fun _ => hsame, List.forall_mem_nil _⟩

/-! ## The loop -/

/-- How the call ends when the loop has `n` rounds left. -/
structure LoopEnds (i : Nat) (key : Key) (holder : String) (ttl : Duration)
    (ms : List (Moment (machine cfg))) (n : Nat) (a : Except Err AcquireResult) : Prop where
  ok : ∀ res, a = .ok res → TakesEffect i ms key holder ttl res
  error : ∀ e, a = .error e → Reads i ms
  exhausted : a = .error (.new "acquire: exhausted retries") → n = 0 ∨ Overrun i ms key n

theorem LoopEnds.of_ok {n : Nat} (h : TakesEffect i ms key holder ttl res) :
    LoopEnds i key holder ttl ms n (.ok res) where
  ok := by
    intro res' hres
    cases hres
    exact h
  error := fun _ he => by cases he
  exhausted := fun he => by cases he

theorem loop_ends {n : Nat} (hs : Stretch cfg w ms w')
    (hhonest : ∀ m ∈ ms, m.tid = i → honest m.event = true)
    (h : Follows i (Manager.acquireLoop key holder ttl n) ms (.ret a)) :
    LoopEnds i key holder ttl ms n a := by
  induction n generalizing w ms with
  | zero =>
    obtain ⟨heq, hms⟩ := Follows.of_ret h
    cases heq
    exact ⟨fun _ hres => (by cases hres), fun e _ => reads_others hms, fun _ => .inl rfl⟩
  | succ n ih =>
    obtain ⟨hnone, -⟩ | ⟨pre, g, r, ms₁, rfl, hpre, hg, h₁⟩ := follows_get h
    · cases hnone
    obtain ⟨-, hget, hs₁⟩ := hs.of_append_cons
    have hr := hget.honest_get hg (hhonest g (List.mem_append_right _ List.mem_cons_self) hg.1)
    have hsame := (hget.told_get hg).1
    have hround : Follows i (Manager.acquireAttempt key holder ttl (g.after.store.lookup key)
        (Manager.acquireLoop key holder ttl n)) ms₁ (.ret a) := by
      rw [hsame]
      cases hl : g.before.store.lookup key with
      | none =>
        rw [hr, MemStore.get, hl] at h₁
        exact h₁
      | some cur =>
        rw [hr, MemStore.get, hl] at h₁
        exact h₁
    have hread : Reads i (pre ++ [g]) := by
      rw [reads_append, reads_cons]
      exact ⟨reads_others hpre, fun _ => hsame, List.forall_mem_nil _⟩
    have hhonest₁ : ∀ m ∈ ms₁, m.tid = i → honest m.event = true := fun m hm =>
      hhonest m (List.mem_append_right _ (List.mem_cons_of_mem _ hm))
    cases round_ends hs₁ hhonest₁ hround with
    | @held cur now hreads hreading hat =>
      refine .of_ok ⟨pre, g, ms₁, now, rfl, hg.1, ?_, ?_, fun k _ => by rw [hsame], ?_⟩
      · rw [readings_append, readings_cons_own hg.1, readings_others hpre, hreading, hg.2]
        rfl
      · rw [← hsame]
        exact hat
      · exact reads_append.mpr ⟨reads_others hpre, hreads⟩
    | ceiling hreads hnamed =>
      rw [List.append_cons]
      refine ⟨fun _ hres => (by cases hres), fun _ _ => reads_append.mpr ⟨hread, hreads⟩, ?_⟩
      intro he
      cases he
      exact absurd rfl hnamed
    | written heffect =>
      rw [List.append_cons]
      exact .of_ok (heffect.prepend hread)
    | @lost _ mid post m hsplit hown hreads hforeign hrest hstretch =>
      subst hsplit
      have hnext := ih hstretch (fun x hx => hhonest₁ x
        (List.mem_append_right _ (List.mem_cons_of_mem _ hx))) hrest
      have hround : Reads i (pre ++ [g] ++ (mid ++ [m])) := reads_append.mpr ⟨hread, hreads⟩
      refine ⟨fun res hres => ?_, fun e he => ?_, fun he => .inr ?_⟩
      · have := (hnext.ok res hres).prepend hround
        simpa using this
      · have := reads_append.mpr ⟨hround, hnext.error e he⟩
        simpa using this
      · rcases hnext.exhausted he with rfl | hover
        · exact ⟨pre, g, mid, m, post, rfl, hg.1, hown, hforeign⟩
        · exact hover.prepend hg.1 hforeign

/-! ## The call -/

/-- An Acquire that is accepted by the argument checks runs the loop; a
refused one returns at once. -/
theorem acquire_cases (key : Key) (holder : String) (ttl : Duration) :
    (∃ e, Manager.acquire key holder ttl = .ret (.error e) ∧
      e ≠ .new "acquire: exhausted retries") ∨
    Manager.acquire key holder ttl =
      Manager.acquireLoop key holder ttl Manager.maxAcquireAttempts := by
  unfold Manager.acquire
  split
  · exact .inl ⟨_, rfl, fun h => by cases h⟩
  split
  · exact .inl ⟨_, rfl, fun h => by cases h⟩
  · split
    · exact .inl ⟨_, rfl, by decide⟩
    · exact .inr rfl

theorem call_ends (hs : Stretch cfg w ms w') (hhonest : ∀ m ∈ ms, m.tid = i → honest m.event = true)
    (h : Follows i (Manager.acquire key holder ttl) ms (.ret a)) :
    LoopEnds i key holder ttl ms Manager.maxAcquireAttempts a := by
  rcases acquire_cases key holder ttl with ⟨e, heq, hne⟩ | heq
  · rw [heq] at h
    obtain ⟨ha, hms⟩ := Follows.of_ret h
    cases ha
    refine ⟨fun _ hres => (by cases hres), fun _ _ => reads_others hms, fun he => ?_⟩
    cases he
    exact absurd rfl hne
  · rw [heq] at h
    exact loop_ends hs hhonest h

/-- Acquire is linearizable. In every run, with any calls around it, of a
server whose store answers this Acquire with at most its two sentinels:
an Acquire that returned without error took effect at one of its own
moments, as `acquireAtOnce` does on the record stored then with its last
clock reading, and wrote nothing else; one that returned an error wrote
nothing, and its retries are exhausted only if that many foreign writes
landed on the key between two of its operations. -/
theorem acquire_linearizable {w₀ : World} {p : Pool (machine cfg)} {t : Thread (machine cfg)}
    {a : Except Err AcquireResult} (h₀ : w₀.store.Filled) (hrun : Pool.Run (Pool.empty w₀) ms p)
    (ht : p.threads[i]? = some t) (hcall : t.call = .acquire key holder ttl)
    (hret : t.prog = .ret (.result a))
    (hhonest : ∀ m ∈ ms, m.tid = i → honest m.event = true) :
    (∀ res, a = .ok res → TakesEffect i ms key holder ttl res) ∧
    (∀ e, a = .error e → Reads i ms) ∧
    (a = .error (.new "acquire: exhausted retries") →
      Overrun i ms key Manager.maxAcquireAttempts) := by
  have hfollows := hrun.follows.2 i t ht
  rw [hcall, hret] at hfollows
  -- the call's program is the Acquire, with its answer wrapped
  obtain ⟨a', heq, hacquire⟩ := Follows.of_map_ret
    (p := Manager.acquire key holder ttl) (f := Outcome.result) hfollows
  cases heq
  have hends := call_ends (stretch_of_run hrun h₀) hhonest hacquire
  refine ⟨hends.ok, hends.error, fun he => ?_⟩
  exact (hends.exhausted he).resolve_left (by decide)

/-- `a` and `b` find the key free; `b` writes first, so `a` reads again. -/
def raceRun : List (Action (machine ⟨.single, none, false⟩)) :=
  [.spawn (.acquire ⟨"jobs", "nightly"⟩ "a" 10), .spawn (.acquire ⟨"jobs", "nightly"⟩ "b" 20),
   .exec 0 .answer, .exec 1 .answer, .exec 0 (.clock 0), .exec 1 (.clock 0), .exec 1 .answer,
   .exec 0 .answer, .env (3 : Int), .exec 0 .answer, .exec 0 (.clock 3)]

def raced : List (Moment (machine ⟨.single, none, false⟩)) × Pool (machine ⟨.single, none, false⟩) :=
  (fresh ⟨.single, none, false⟩ 0).recorded raceRun (by decide)

theorem acquire_linearizable_raced :
    TakesEffect 0 raced.1 ⟨"jobs", "nightly"⟩ "a" 10 ⟨false, "b", 1, 20, 0⟩ ∧
      TakesEffect 1 raced.1 ⟨"jobs", "nightly"⟩ "b" 20 ⟨true, "b", 1, 20, 0⟩ := by
  have hrun : Pool.Run (fresh ⟨.single, none, false⟩ 0) raced.1 raced.2 := Pool.run_recorded _
  have hrefused : ∃ t, raced.2.threads[0]? = some t ∧
      t.call = .acquire ⟨"jobs", "nightly"⟩ "a" 10 ∧
      t.prog = .ret (.result (.ok ⟨false, "b", 1, 20, 0⟩)) := ⟨_, rfl, rfl, rfl⟩
  have hgranted : ∃ t, raced.2.threads[1]? = some t ∧
      t.call = .acquire ⟨"jobs", "nightly"⟩ "b" 20 ∧
      t.prog = .ret (.result (.ok ⟨true, "b", 1, 20, 0⟩)) := ⟨_, rfl, rfl, rfl⟩
  obtain ⟨t, ht, hcall, hret⟩ := hrefused
  obtain ⟨u, hu, hcall', hret'⟩ := hgranted
  exact ⟨(acquire_linearizable MemStore.filled_new hrun ht hcall hret (by decide)).1 _ rfl,
    (acquire_linearizable MemStore.filled_new hrun hu hcall' hret' (by decide)).1 _ rfl⟩

end Berth.Server
