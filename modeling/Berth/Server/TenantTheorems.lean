/-
Berth.Server.TenantTheorems — tenants cannot touch each other's leases.

With authentication on and the default policy, every write of an HTTP
request is made for a holder its identity's tenant owns (`World.Ok`).
A write for another holder can only replace a record that is free or had
expired at the writer's reading (`Transition.expired_of_foreign`), and no
holder is owned by two tenants.
-/
import Berth.Server.FencingTheorems

namespace Berth.Server

open Berth.Interleave Berth.Lease Berth.Tenant Berth.Api

variable {mode : ClockMode} {t₀ : Time}

/-- The server with authentication on. -/
abbrev guardedConfig (mode : ClockMode) : Config := ⟨mode, some DefaultAuthorizer.new, false⟩

/-- The call is a request by an identity of another tenant than `owner`'s. -/
def Foreign (owner : Identity) (c : Call) : Prop :=
  ∃ req id, c = .http req ∧ req.identity = some id ∧ id.tenant ≠ owner.tenant

/-- The empty holder belongs to nobody. -/
theorem authorizeHolder_ne_empty {owner : Identity} {holder : String}
    (h : DefaultAuthorizer.authorizeHolder (some owner) holder = .ok ()) : holder ≠ "" := by
  rintro rfl
  obtain ⟨i, hi, hne, _, howns⟩ := authorizeHolder_ok_iff.mp h
  simp [DefaultAuthorizer.owns] at howns
  exact hne howns

/-- A foreign write over an owned record was decided after its expiry. -/
theorem expired_of_foreign_write {w : World} (hok : w.Ok (guardedConfig mode)) {x : Write Call}
    {ws : List (Write Call)} (hs : (x :: ws) <:+ w.writes) {r : Record} (hold : x.old = some r)
    {owner : Identity}
    (hown : DefaultAuthorizer.authorizeHolder (some owner) r.holder = .ok ())
    (hfor : Foreign owner x.call) : ∃ t, x.reading = some t ∧ r.expiresAt < t := by
  obtain ⟨req, id, hcall, hid, htenant⟩ := hfor
  obtain ⟨hop, hent⟩ := hok.called x (hs.subset List.mem_cons_self)
  obtain ⟨op, holder, hreq, hholder, hauth⟩ := hent req hcall
  rw [hid] at hauth
  have hallowed := authorize_default hauth
  have hforeign : r.holder ≠ holder := by
    rintro rfl
    exact htenant (authorizeHolder_exclusive hallowed hown)
  have hist := hok.history.suffix hs
  obtain ⟨op', t, hop', hread, htr⟩ := hist.transition
  rw [← hist.old_eq, hold] at htr
  rw [hop, hcall, Call.op, hreq, Option.some.injEq] at hop'
  subst hop'
  exact ⟨t, hread, htr.expired_of_foreign hholder hforeign (authorizeHolder_ne_empty hown)⟩

/-- Tenant non-interference. Let the record of `k` be held by a holder of
`owner`'s tenant. After any further run whose writes are all made by
requests of other tenants, the record is unchanged, or the first write
over it was decided after its expiry; every other foreign write over it
is excluded. And no two tenants are authorized for one holder. -/
theorem tenants_do_not_interfere {p q : Pool (machine (guardedConfig mode))}
    (hp : (fresh (guardedConfig mode) t₀).Reaches p) (hq : p.Reaches q) {k : Key} {r : Record}
    (hr : p.shared.store.lookup k = some r) {owner : Identity}
    (hown : DefaultAuthorizer.authorizeHolder (some owner) r.holder = .ok ())
    {new : List (Write Call)} (hnew : q.shared.writes = new ++ p.shared.writes)
    (hfor : ∀ x ∈ new, Foreign owner x.call) :
    (q.shared.store.lookup k = some r ∨
      ∃ x ∈ new, x.new.key = k ∧ x.old = some r ∧ ∃ t, x.reading = some t ∧ r.expiresAt < t) ∧
    (∀ x ∈ new, x.old = some r → ∃ t, x.reading = some t ∧ r.expiresAt < t) ∧
    (∀ (i j : Identity) (holder : String),
      DefaultAuthorizer.authorizeHolder (some i) holder = .ok () →
      DefaultAuthorizer.authorizeHolder (some j) holder = .ok () → i.tenant = j.tenant) := by
  have hokp := world_ok hp
  have hokq := world_ok (hp.trans hq)
  have hevery : ∀ x ∈ new, x.old = some r → ∃ t, x.reading = some t ∧ r.expiresAt < t := by
    intro x hx hold
    obtain ⟨pre, post, rfl⟩ := List.append_of_mem hx
    have hs : (x :: (post ++ p.shared.writes)) <:+ q.shared.writes := by
      rw [hnew, List.append_assoc]
      exact List.suffix_append pre _
    exact expired_of_foreign_write hokq hs hold hown (hfor x hx)
  refine ⟨?_, hevery, fun i j holder hi hj => authorizeHolder_exclusive hi hj⟩
  rw [hokp.replay] at hr
  rw [hokq.replay]
  by_cases hsame : storedAt q.shared.writes k = storedAt p.shared.writes k
  · exact .inl (hsame.trans hr)
  obtain ⟨x, ws, hx, hws, hxk, hold⟩ :=
    hokq.history.first_change (reaches_later hp hq).1 hsame
  rw [hr] at hold
  have hmem : x ∈ new := by
    -- `x` came after everything that was there before
    obtain ⟨pre, hpre⟩ := hx
    obtain ⟨mid, hmid⟩ := hws
    rw [← hmid, hnew, ← List.cons_append, ← List.append_assoc] at hpre
    rw [← List.append_cancel_right hpre]
    simp
  exact .inr ⟨x, hmem, hxk, hold, hevery x hmem hold⟩

/-- An acquire request over HTTP for one second. -/
def acquireRequest (tenant holder : String) : HttpRequest :=
  { identity := some ⟨holder, tenant, ""⟩, key := demoKey
    endpoint := .acquire (.ok ⟨holder, 1⟩) }

/-- Tenant `red` holds the key. -/
def redHolds : Pool (machine (guardedConfig .single)) :=
  (fresh (guardedConfig .single) 0).after
    [.spawn (.http (acquireRequest "red" "red/a")), .exec 0 .answer, .exec 0 (.clock 0),
     .exec 0 .answer] (by decide)

/-- Tenant `blue` acquires once `red`'s lease has run out. -/
def blueTakesOver : Pool (machine (guardedConfig .single)) :=
  redHolds.after
    [.env (1000000001 : Int), .spawn (.http (acquireRequest "blue" "blue")), .exec 1 .answer,
     .exec 1 (.clock 1000000001), .exec 1 .answer] (by decide)

/-- The write of that takeover. -/
def takeover : Write Call :=
  { tid := 1, call := .http (acquireRequest "blue" "blue")
    op := some (.acquire demoKey "blue" second), reading := some 1000000001
    landed := 1000000001, old := some ⟨demoKey, "red/a", second, 0, 0, 1, 1⟩
    new := ⟨demoKey, "blue", second, 1000000001, 1000000001, 2, 2⟩ }

theorem tenants_do_not_interfere_takeover :
    ∃ t, takeover.reading = some t ∧
      (⟨demoKey, "red/a", second, 0, 0, 1, 1⟩ : Record).expiresAt < t := by
  have hforeign : ∀ x ∈ [takeover], Foreign ⟨"red/a", "red", ""⟩ x.call := by
    intro x hx
    rw [List.mem_singleton.mp hx]
    exact ⟨_, _, rfl, rfl, by decide⟩
  have hlog : blueTakesOver.shared.writes = [takeover] ++ redHolds.shared.writes := rfl
  have hheld : redHolds.shared.store.lookup demoKey =
      some ⟨demoKey, "red/a", second, 0, 0, 1, 1⟩ := by decide
  exact (tenants_do_not_interfere (Pool.reaches_after _) (Pool.reaches_after _) hheld
    (by decide) hlog hforeign).2.1 takeover List.mem_cons_self rfl

end Berth.Server
