/-
Berth.Server.OutcomeTheorems — when the answers of `Release` and `Renew`
can be trusted.

Both calls treat a lost compare-and-swap as the end of the caller's
tenure. That is right when the winner ended it, and wrong when the winner
was another call of the same holder under the same token, which only
extended it. The two runs below show the wrong answers; the theorems show
that this interleaving is the only way to get one.
-/
import Berth.Server.FencingTheorems

namespace Berth.Server

open Berth.Interleave Berth.Lease Berth.Tenant Berth.Api

variable {cfg : Config} {t₀ : Time} {p q : Pool (machine cfg)}
variable {i : Nat} {t : Thread (machine cfg)} {out : Outcome}
variable {key : Key} {holder : String} {token : Int} {ttl : Duration}

/-- Nothing can overtake a call that attempted no write, or wrote right
after its read. -/
theorem not_overtaken_of_empty {l : Loc} {w : World}
    (h : l.window.all (fun ab => decide (ab.2 ≤ ab.1)) = true) :
    ¬ Overtaken l w key holder token := by
  rintro ⟨a, b, n, x, hwin, han, hnb, _⟩
  rw [hwin, Option.all_some, decide_eq_true_eq] at h
  omega

/-! ## Release -/

/-- A release that was not overtaken by its own tenure tells the truth:
while it ran there was an instant at which the key was not held by the
caller under that token, and if the tenure existed by then, it is over
in every later state and no renewal of it landed after that instant. -/
theorem release_truthful (h : (fresh cfg t₀).Reaches p) (ht : p.threads[i]? = some t)
    (hop : Call.op t.call = some (.release key holder token))
    (hout : t.prog.result? = some out) (hrel : Outcome.isReleased out = true)
    (halone : ¬ Overtaken t.loc p.shared key holder token) :
    ∃ ws₀, ws₀ <:+ p.shared.writes ∧ Loc.started t.loc ≤ ws₀.length ∧
      ws₀.length ≤ Loc.last t.loc ∧ ¬ HeldBy holder token (storedAt ws₀ key) ∧
      ((∃ y ∈ ws₀, y.new.key = key ∧ HeldBy holder token (some y.new)) →
        ∀ q, p.Reaches q → ¬ HeldBy holder token (q.shared.store.lookup key) ∧
          ∀ x ∈ q.shared.writes, x.new.key = key → x.Continues holder token → x ∈ ws₀) := by
  have hpost : CallPost cfg i t.call out t.loc p.shared := (server_ok h).returned ht hout
  obtain ⟨hne, hcases⟩ := ((hpost.release hop).2.1 hrel).released rfl
  rcases hcases with ⟨ws₀, hs, hlo, hhi, hnot⟩ | hover
  · refine ⟨ws₀, hs, hlo, hhi, hnot, ?_⟩
    rintro ⟨y, hy, hyk, hyh⟩ q hq
    have hokq := world_ok (h.trans hq)
    obtain ⟨hst, hall⟩ := hokq.history.tenure_over
      (hs.trans (reaches_later h hq).1) hne hy hyk hyh hnot
    rw [hokq.replay]
    exact ⟨hst, fun x hx hxk hcont => hall x hx hxk hcont.2⟩
  · exact absurd hover halone

/-- `a` holds the lease and releases it; between the release's read and
its write, a renewal by `a` lands. -/
def renewInsideRelease : List (Action (machine ⟨.single, none, false⟩)) :=
  [.spawn (.acquire demoKey "a" 10), .exec 0 .answer, .exec 0 (.clock 0), .exec 0 .answer,
   .spawn (.release demoKey "a" 1), .exec 1 .answer, .exec 1 (.clock 0),
   .spawn (.renew demoKey "a" 1 10), .exec 2 .answer, .exec 2 (.clock 0), .exec 2 .answer,
   .exec 1 .answer]

def stillHeld : Pool (machine ⟨.single, none, false⟩) :=
  (fresh ⟨.single, none, false⟩ 0).after renewInsideRelease (by decide)

/-- The release reports success, the renewal reports success, and `a` held
the lease at every instant of the release. -/
theorem release_succeeds_while_held :
    (fresh ⟨.single, none, false⟩ 0).Reaches stillHeld ∧
      (∃ t, stillHeld.threads[1]? = some t ∧ t.call = .release demoKey "a" 1 ∧
        t.prog.result? = some (.released (.ok ())) ∧
        ¬ Vacated t.loc stillHeld.shared demoKey "a" 1) ∧
      (∃ u, stillHeld.threads[2]? = some u ∧ u.call = .renew demoKey "a" 1 10 ∧
        u.prog.result? = some (.result (.ok ⟨true, "a", 1, 10, 0⟩))) ∧
      HeldBy "a" 1 (stillHeld.shared.store.lookup demoKey) := by
  refine ⟨Pool.reaches_after _, ⟨_, rfl, rfl, rfl, ?_⟩, ⟨_, rfl, rfl, rfl⟩, ?_⟩
  · unfold Vacated
    decide
  · decide

/-- The same calls with the renewal first. -/
def renewThenRelease : List (Action (machine ⟨.single, none, false⟩)) :=
  [.spawn (.acquire demoKey "a" 10), .exec 0 .answer, .exec 0 (.clock 0), .exec 0 .answer,
   .spawn (.renew demoKey "a" 1 10), .exec 1 .answer, .exec 1 (.clock 0), .exec 1 .answer,
   .spawn (.release demoKey "a" 1), .exec 2 .answer, .exec 2 (.clock 0), .exec 2 .answer]

def givenUp : Pool (machine ⟨.single, none, false⟩) :=
  (fresh ⟨.single, none, false⟩ 0).after renewThenRelease (by decide)

theorem release_truthful_givenUp :
    ∃ t, givenUp.threads[2]? = some t ∧ t.prog.result? = some (.released (.ok ())) ∧
      ∃ ws₀, ws₀ <:+ givenUp.shared.writes ∧ Loc.started t.loc ≤ ws₀.length ∧
        ws₀.length ≤ Loc.last t.loc ∧ ¬ HeldBy "a" 1 (storedAt ws₀ demoKey) := by
  have hreach : (fresh ⟨.single, none, false⟩ 0).Reaches givenUp := Pool.reaches_after _
  obtain ⟨t, ht, hcall, hres, hwin⟩ : ∃ t, givenUp.threads[2]? = some t ∧
      t.call = .release demoKey "a" 1 ∧ t.prog.result? = some (.released (.ok ())) ∧
      (Loc.window t.loc).all (fun ab => decide (ab.2 ≤ ab.1)) = true :=
    ⟨_, rfl, rfl, rfl, by decide⟩
  have hop : Call.op t.call = some (.release demoKey "a" 1) := by
    rw [hcall]
    rfl
  obtain ⟨ws₀, hs, hlo, hhi, hnot, _⟩ :=
    release_truthful hreach ht hop hres rfl (not_overtaken_of_empty hwin)
  exact ⟨t, ht, hres, ws₀, hs, hlo, hhi, hnot⟩

/-! ## Renew -/

/-- A renewal that was not overtaken by its own tenure reports a loss only
if there was one: while it ran there was an instant at which the key was
absent, not held by the caller under that token, or expired at the call's
clock reading. -/
theorem renewal_loss_truthful (h : (fresh cfg t₀).Reaches p) (ht : p.threads[i]? = some t)
    (hop : Call.op t.call = some (.renew key holder token ttl))
    (hout : t.prog.result? = some out) {res : AcquireResult}
    (hres : Outcome.lease? out = some res) (hlost : res.acquired = false)
    (halone : ¬ Overtaken t.loc p.shared key holder token) :
    Lapsed t.loc p.shared key holder token := by
  have hpost : CallPost cfg i t.call out t.loc p.shared := (server_ok h).returned ht hout
  rcases (hpost.renew hop hres res rfl).2 hlost with hlapsed | hover
  · exact hlapsed
  · exact absurd hover halone

/-- `a` renews after its lease has run out. -/
def lateRenewal : List (Action (machine ⟨.single, none, false⟩)) :=
  [.spawn (.acquire demoKey "a" 10), .exec 0 .answer, .exec 0 (.clock 0), .exec 0 .answer,
   .env (11 : Int), .spawn (.renew demoKey "a" 1 10), .exec 1 .answer, .exec 1 (.clock 11)]

def tooLate : Pool (machine ⟨.single, none, false⟩) :=
  (fresh ⟨.single, none, false⟩ 0).after lateRenewal (by decide)

theorem renewal_loss_truthful_tooLate :
    ∃ t, tooLate.threads[1]? = some t ∧
      t.prog.result? = some (.result (.ok ⟨false, "a", 1, 10, 0⟩)) ∧
      Lapsed t.loc tooLate.shared demoKey "a" 1 := by
  have hreach : (fresh ⟨.single, none, false⟩ 0).Reaches tooLate := Pool.reaches_after _
  obtain ⟨t, ht, hcall, hres, hwin⟩ : ∃ t, tooLate.threads[1]? = some t ∧
      t.call = .renew demoKey "a" 1 10 ∧
      t.prog.result? = some (.result (.ok ⟨false, "a", 1, 10, 0⟩)) ∧
      (Loc.window t.loc).all (fun ab => decide (ab.2 ≤ ab.1)) = true :=
    ⟨_, rfl, rfl, rfl, by decide⟩
  have hop : Call.op t.call = some (.renew demoKey "a" 1 10) := by
    rw [hcall]
    rfl
  exact ⟨t, ht, hres,
    renewal_loss_truthful hreach ht hop hres rfl rfl (not_overtaken_of_empty hwin)⟩

/-- `a` holds the lease and renews it twice at once. -/
def twoRenewals : List (Action (machine ⟨.single, none, false⟩)) :=
  [.spawn (.acquire demoKey "a" 10), .exec 0 .answer, .exec 0 (.clock 0), .exec 0 .answer,
   .spawn (.renew demoKey "a" 1 10), .exec 1 .answer, .exec 1 (.clock 0),
   .spawn (.renew demoKey "a" 1 10), .exec 2 .answer, .exec 2 (.clock 0), .exec 2 .answer,
   .exec 1 .answer, .exec 1 .answer]

def renewedTwice : Pool (machine ⟨.single, none, false⟩) :=
  (fresh ⟨.single, none, false⟩ 0).after twoRenewals (by decide)

/-- The first renewal reports a loss although `a` held the unexpired lease
at every instant of the call. -/
theorem renewal_reported_lost_while_held :
    (fresh ⟨.single, none, false⟩ 0).Reaches renewedTwice ∧
      ∃ t, renewedTwice.threads[1]? = some t ∧ t.call = .renew demoKey "a" 1 10 ∧
        t.prog.result? = some (.result (.ok ⟨false, "a", 1, 10, 0⟩)) ∧
        ¬ Lapsed t.loc renewedTwice.shared demoKey "a" 1 := by
  refine ⟨Pool.reaches_after _, _, rfl, rfl, rfl, ?_⟩
  unfold Lapsed
  decide

end Berth.Server
