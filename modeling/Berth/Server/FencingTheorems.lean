/-
Berth.Server.FencingTheorems — tokens are never reused and tenures never
overlap.

Both results are about every run of the server: any number of calls and
sweeps, split into their store operations and interleaved in any order.
`fencing_tokens_unique` holds whatever the clocks read;
`tenures_exclude` needs one clock that does not go back. The arguments
are those of `Lease/HistoryTheorems.lean`, applied to the log.
-/
import Berth.Server.ServerTheorems

namespace Berth.Server

open Berth.Interleave Berth.Lease Berth.Tenant Berth.Api

variable {cfg : Config} {t₀ : Time} {p q : Pool (machine cfg)}

/-- Call number `i` is about key `k` and returned the lease `res`. -/
def Reports (p : Pool (machine cfg)) (i : Nat) (k : Key) (res : AcquireResult) : Prop :=
  ∃ (t : Thread (machine cfg)) (out : Outcome) (op : LeaseOp), p.threads[i]? = some t ∧
    t.prog.result? = some out ∧ Call.op t.call = some op ∧ op.key? = some k ∧
    out.lease? = some res

/-- A reported grant is a record the call wrote for its holder. -/
theorem reported_grant (h : (fresh cfg t₀).Reaches p) {i : Nat} {k : Key} {res : AcquireResult}
    (hrep : Reports p i k res) (hacq : res.acquired = true) :
    ∃ x ∈ p.shared.writes, x.new.key = k ∧ x.new.holder ≠ "" ∧ res = x.new.toResult true := by
  obtain ⟨t, out, op, ht, hout, hop, hk, hres⟩ := hrep
  have hpost : CallPost cfg i t.call out t.loc p.shared := (server_ok h).returned ht hout
  have key : ∀ {hd ttl}, Granted cfg i t.loc p.shared k hd ttl res →
      ∃ x ∈ p.shared.writes, x.new.key = k ∧ x.new.holder ≠ "" ∧ res = x.new.toResult true := by
    rintro hd ttl ⟨x, hx, _, _, hxk, hxh, hne, _, heq, _⟩
    exact ⟨x, hx, hxk, hxh ▸ hne, heq⟩
  cases op with
  | acquire key' holder ttl =>
    cases hk
    exact key (hpost.acquire hop hres res rfl hacq)
  | renew key' holder token ttl =>
    cases hk
    exact key ((hpost.renew hop hres res rfl).1 hacq).1
  | release key' holder token =>
    -- a release reports no lease
    rw [(hpost.release hop).1] at hres
    cases hres
  | collect grace => cases hk

/-! ## Tokens -/

/-- Tokens are never reused. In every run, whatever the clocks read: the
stored token stays within `1 .. maxInt32` and never decreases; two grants
reported under one token name one holder and one acquisition; and every
acquisition of a key that has no record, a tombstone or a record that has
expired at the writer's reading is written under a token above all that
the key ever had. -/
theorem fencing_tokens_unique (h : (fresh cfg t₀).Reaches p) (k : Key) :
    (∀ r, p.shared.store.lookup k = some r →
      1 ≤ r.fencingToken ∧ r.fencingToken ≤ maxInt32) ∧
    (∀ q r, p.Reaches q → p.shared.store.lookup k = some r →
      ∃ r', q.shared.store.lookup k = some r' ∧ r.fencingToken ≤ r'.fencingToken) ∧
    (∀ i j res res', Reports p i k res → Reports p j k res' →
      res.acquired = true → res'.acquired = true → res.fencingToken = res'.fencingToken →
      res.holder = res'.holder ∧ res.acquiredAt = res'.acquiredAt) ∧
    (∀ x ws, (x :: ws) <:+ p.shared.writes → x.new.key = k → x.new.holder ≠ "" →
      x.Anew → ∀ y ∈ ws, y.new.key = k → y.new.fencingToken < x.new.fencingToken) := by
  have hok := world_ok h
  refine ⟨?_, ?_, ?_, ?_⟩
  · intro r hr
    rw [hok.replay] at hr
    obtain ⟨x, hx, rfl, _⟩ := mem_of_storedAt hr
    exact hok.history.token_bounds hx
  · intro q r hq hr
    have hokq := world_ok (h.trans hq)
    rw [hok.replay] at hr
    rw [hokq.replay]
    exact hokq.history.token_mono (reaches_later h hq).1 hr
  · intro i j res res' hi hj hacq hacq' htok
    obtain ⟨x, hx, hxk, hxh, rfl⟩ := reported_grant h hi hacq
    obtain ⟨y, hy, hyk, hyh, rfl⟩ := reported_grant h hj hacq'
    exact hok.history.same_tenure hx hy (hxk.trans hyk.symm) htok hxh hyh
  · intro x ws hs hxk hxh hanew y hy hyk
    exact (hok.history.suffix hs).token_lt_of_anew hxh hanew hy (hyk.trans hxk.symm)

/-- A key of the runs below. -/
def demoKey : Key := ⟨"jobs", "nightly"⟩

/-- `a` acquires and releases; `b` then reads a clock that is behind,
acquires, and acquires again when its lease has expired. -/
def reclaimRun : List (Action (machine ⟨.skewed, none, false⟩)) :=
  [.spawn (.acquire demoKey "a" 10), .exec 0 .answer, .exec 0 (.clock 100), .exec 0 .answer,
   .spawn (.release demoKey "a" 1), .exec 1 .answer, .exec 1 (.clock 70), .exec 1 .answer,
   .spawn (.acquire demoKey "b" 10), .exec 2 .answer, .exec 2 (.clock 5), .exec 2 .answer,
   .spawn (.acquire demoKey "b" 10), .exec 3 .answer, .exec 3 (.clock 16), .exec 3 .answer]

def reclaimed : Pool (machine ⟨.skewed, none, false⟩) :=
  (fresh ⟨.skewed, none, false⟩ 0).after reclaimRun (by decide)

theorem fencing_tokens_unique_reclaimed :
    ∃ x ws, reclaimed.shared.writes = x :: ws ∧ x.new = ⟨demoKey, "b", 10, 16, 16, 3, 4⟩ ∧
      x.old = some ⟨demoKey, "b", 10, 5, 5, 2, 3⟩ ∧ x.reading = some 16 ∧
      ∀ y ∈ ws, y.new.key = demoKey → y.new.fencingToken < 3 := by
  have hreach : (fresh ⟨.skewed, none, false⟩ 0).Reaches reclaimed := Pool.reaches_after _
  have hcons : ∃ x ws, reclaimed.shared.writes = x :: ws ∧
      x.new = ⟨demoKey, "b", 10, 16, 16, 3, 4⟩ ∧ x.old = some ⟨demoKey, "b", 10, 5, 5, 2, 3⟩ ∧
      x.reading = some 16 := ⟨_, _, rfl, by decide, by decide, by decide⟩
  obtain ⟨x, ws, heq, hnew, hold, hread⟩ := hcons
  refine ⟨x, ws, heq, hnew, hold, hread, fun y hy hk => ?_⟩
  -- the record had expired at 15
  have hanew : x.Anew := by
    intro r t hr ht
    rw [hold] at hr
    rw [hread] at ht
    cases hr
    cases ht
    exact .inr (by decide)
  have hlt := (fencing_tokens_unique hreach demoKey).2.2.2 x ws (by rw [heq]) (by rw [hnew])
    (by rw [hnew]; decide) hanew y hy hk
  rwa [hnew] at hlt

/-! ## Tenures -/

section Exclusion

variable {authz : Option Authorizer} {p : Pool (machine ⟨.single, authz, false⟩)}

/-- Tenures exclude each other. In every run with one clock: a write that
ends a tenure is its release with exactly that holder and token, or was
decided after the replaced record's expiry (and, if it is a sweep, its
grace); `RenewedAt` never decreases; two holders never occupy the key at
one instant; and whoever occupies it now is the stored, unexpired holder,
so no two callers hold it at once. -/
theorem tenures_exclude (h : (fresh ⟨.single, authz, false⟩ t₀).Reaches p) (k : Key) :
    (∀ x ws hd tok, (x :: ws) <:+ p.shared.writes → x.new.key = k → hd ≠ "" → x.Ends hd tok →
      ∃ r t, x.old = some r ∧ x.reading = some t ∧
        (x.call.op = some (.release k hd tok) ∨
          r.expiresAt < t ∧
            ∀ e : TTLEnforcer, x.call = .collect e → r.expiresAt + e.grace ≤ t)) ∧
    (∀ x ws r, (x :: ws) <:+ p.shared.writes → x.old = some r →
      r.renewedAt ≤ x.new.renewedAt) ∧
    (∀ hd hd' tok tok' τ, hd ≠ "" → hd' ≠ "" → Occupies p.shared.writes k hd tok τ →
      Occupies p.shared.writes k hd' tok' τ → hd = hd' ∧ tok = tok') ∧
    (∀ hd tok, hd ≠ "" → Occupies p.shared.writes k hd tok p.shared.clock →
      ∃ r, p.shared.store.lookup k = some r ∧ r.holder = hd ∧ r.fencingToken = tok ∧
        p.shared.clock < r.expiresAt) ∧
    (∀ i j res res', Reports p i k res → Reports p j k res' →
      res.acquired = true → res'.acquired = true →
      Occupies p.shared.writes k res.holder res.fencingToken p.shared.clock →
      Occupies p.shared.writes k res'.holder res'.fencingToken p.shared.clock →
      res.holder = res'.holder ∧ res.fencingToken = res'.fencingToken) := by
  have hok := world_ok h
  have htime := hok.timely rfl
  refine ⟨?_, ?_, ?_, ?_, ?_⟩
  · intro x ws hd tok hs hxk hne hend
    obtain ⟨r, t, hold, hread, hwhy⟩ := (hok.history.suffix hs).ends_cases hend hne
    have hop : x.op = x.call.op := (hok.called x (hs.subset List.mem_cons_self)).1
    rw [hop, hxk] at hwhy
    refine ⟨r, t, hold, hread, ?_⟩
    rcases hwhy with hrel | ⟨hlt, hsweep⟩
    · exact .inl hrel
    · exact .inr ⟨hlt, fun e he => hsweep e.grace (by rw [he]; rfl)⟩
  · intro x ws r hs hold
    exact (htime.suffix hs).renewedAt_mono (hok.history.suffix hs) hold
  · intro hd hd' tok tok' τ hne hne' hocc hocc'
    exact occupies_unique hok.history htime hne hne' hocc hocc'
  · intro hd tok hne hocc
    rw [hok.replay]
    exact occupies_stored hok.history htime hne hok.landed hocc
  · intro i j res res' hi hj hacq hacq' hocc hocc'
    obtain ⟨x, _, _, hxh, rfl⟩ := reported_grant h hi hacq
    obtain ⟨y, _, _, hyh, rfl⟩ := reported_grant h hj hacq'
    exact occupies_unique hok.history htime hxh hyh hocc hocc'

end Exclusion

/-- `a` acquires for 10 and lets it expire; `b` reclaims at 11. -/
def expiryRun : List (Action (machine ⟨.single, none, false⟩)) :=
  [.spawn (.acquire demoKey "a" 10), .exec 0 .answer, .exec 0 (.clock 0), .exec 0 .answer,
   .env (11 : Int),
   .spawn (.acquire demoKey "b" 10), .exec 1 .answer, .exec 1 (.clock 11), .exec 1 .answer]

def expiredOver : Pool (machine ⟨.single, none, false⟩) :=
  (fresh ⟨.single, none, false⟩ 0).after expiryRun (by decide)

theorem tenures_exclude_expiredOver :
    ∃ x ws, expiredOver.shared.writes = x :: ws ∧ x.Ends "a" 1 ∧
      ∃ r t, x.old = some r ∧ x.reading = some t ∧
        (x.call.op = some (.release demoKey "a" 1) ∨
          r.expiresAt < t ∧
            ∀ e : TTLEnforcer, x.call = .collect e → r.expiresAt + e.grace ≤ t) := by
  have hcons : ∃ x ws, expiredOver.shared.writes = x :: ws ∧ x.Ends "a" 1 ∧
      x.new.key = demoKey := ⟨_, _, rfl, ⟨by decide, by decide⟩, rfl⟩
  obtain ⟨x, ws, heq, hend, hk⟩ := hcons
  have hreach : (fresh ⟨.single, none, false⟩ 0).Reaches expiredOver := Pool.reaches_after _
  have hsuf : (x :: ws) <:+ expiredOver.shared.writes := by
    rw [heq]
  exact ⟨x, ws, heq, hend,
    (tenures_exclude hreach demoKey).1 x ws "a" 1 hsuf hk (by decide) hend⟩

end Berth.Server
