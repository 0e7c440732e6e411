/-
Berth.Operator.CleanupTheorems — cleanup responsibility is kept, and what
a cleanup releases.

`cleanup_never_dropped` is about every step of every run: the persisted
phase moves only as it may, what was recorded at activation stays until
the end, and the end comes only after a pass that has cleaned up.

The central record belongs to a lease name and a holder, while cleanup is
per object. Two BerthLeases with one lease name share a tenure, and the
cleanup of one releases what the other relies on.
-/
import Berth.Operator.PodTheorems

namespace Berth.Operator

open Berth.Interleave Berth.Lease Berth.Api Berth.Client

variable {ι : Type} [DecidableEq ι] {cfg : Server.Config} {F : Fleet ι} {j : ι} {i : Nat}
variable {l m : BerthLease} {p q : Pool (machine F cfg)}

/-! ## Responsibility -/

/-- Cleanup responsibility is never dropped. In every step of every run,
whatever replicas run, every lease either moves on or goes. Its phase
moves only as `Phase.mayMove` lets it; while it is not idle, the recorded
target UID, lease name, holder and token stay; and when it becomes idle,
loses its finalizer or goes, then a pass over exactly that state has seen
target, Jobs and Pods stopped and has released what was recorded. -/
theorem cleanup_never_dropped {τ : Time} (h : (fresh F cfg τ).Reaches p) (hs : p.Step q) (j : ι) :
    Tidy (p.shared.clusters j) (q.shared.clusters j) := by
  refine PoolOk.step_rel (D := discipline F cfg)
    (R := fun s s' : Site ι cfg => ∀ j, Tidy (s.clusters j) (s'.clusters j)) ?_ ?_ ?_ (pool_ok h) hs
    trivial j
  · exact fun hg => hg.1.tidy
  · exact fun hok he => (env_ok hok he).tidy
  · exact fun _ hst => enter_tidy hst

/-- The deadline passes; thread 4 stops the lease with write 2, drains and
calls Release as central request 1, which the server processes. -/
def stopRun : Script (solo true) plain :=
  prepare () nightly web 0 0 ++ activate () nightly 2 0 1 0 ++
    [.act (.env (.tick (11 * second))), pass () nightly, .go 4 6, handling () 2, .go 5 2,
     .go 4 4] ++ serving 1 (11 * second) ++ [.go 4 1]

def emptied : Pool (machine (solo true) plain) :=
  (fresh (solo true) plain 0).played prompt stopRun (by decide)

def cleaned : Pool (machine (solo true) plain) :=
  (emptied.goOn prompt 4).get (by decide)

theorem cleanup_never_dropped_stopped :
    (∃ l ∈ (emptied.shared.clusters ()).leases, l.phase = .stopping ∧ l.token = 1) ∧
    (∀ l ∈ (cleaned.shared.clusters ()).leases, l.phase = .idle) ∧
    ∀ l ∈ (emptied.shared.clusters ()).leases, Cleaned (cleaned.shared.clusters ()) l := by
  have hidle : ∀ l ∈ (cleaned.shared.clusters ()).leases, l.phase = .idle := by decide
  refine ⟨by decide, hidle, fun l hl => ?_⟩
  have hstop : ∀ l ∈ (emptied.shared.clusters ()).leases, l.phase ≠ .idle ∧
      finalizerName ∈ l.finalizers := by decide
  have hgo : emptied.goOn prompt 4 = some cleaned := (Option.some_get _).symm
  rcases cleanup_never_dropped (Pool.reaches_played _) (Pool.step_of_goOn hgo) () l hl with
    ⟨l', hl', hnext⟩ | ⟨_, hclean⟩
  · exact hnext.cleaned ⟨(hstop l hl).1, .inl (hidle l' hl')⟩
  · exact hclean (hstop l hl).1 (hstop l hl).2

/-! ## What is released -/

/-- In this step thread `i` calls the central Release for `l`. -/
def CallsRelease (p q : Pool (machine F cfg)) (j : ι) (i : Nat) (l : BerthLease) (key : Key)
    (holder : String) (token : Int) : Prop :=
  ∃ n, Performs p q j i ⟨.post l key (releaseEndpoint holder token), n⟩

/-- A Release is for what was recorded when the lease was active, under the
lease name of its spec. -/
theorem CallsRelease.recorded {τ : Time} {key : Key} {holder : String} {token : Int}
    (h : (fresh F cfg τ).Reaches p) (hcall : CallsRelease p q j i l key holder token)
    (htarget : l.spec.target.isSome = true) : key = l.central := by
  obtain ⟨n, hperf⟩ := hcall
  have hheard := ((site_ok (h.tail hperf.1)).ledgers j).heard
  obtain ⟨v, _, hof⟩ := hheard.released i l key _ n (by rw [hperf.2]; exact List.mem_cons_self) rfl
    htarget
  exact hof.key.trans hof.same.central.symm

omit [DecidableEq ι] in
/-- An active lease has recorded the lease name of its spec. -/
theorem active_leaseName {s : Site ι cfg} {a : Activation} {τ : Time} (hok : s.Ok F)
    (hm : m ∈ (s.clusters j).leases) (hact : activeAt m τ = true) (ha : m.activation = some a) :
    a.leaseName = m.spec.leaseName := by
  obtain ⟨n, hn⟩ := (hok.clusters j).wf.current m hm
  have hphase := activeAt_phase hact
  obtain ⟨w, hw⟩ := workload_of_phase (by rw [hphase]; exact (nomatch ·))
  rw [activation_some hw] at ha
  cases ha
  exact ((((hok.clusters j).version _ hn).record w hw).active
    ((phase_some hw).symm.trans hphase)).2.1

/-- A cleanup does not release what another lease relies on. In every run,
whenever the central Release is called for a lease with a target whose
lease name no other lease of the namespace has, no other lease of the
namespace is active with the lease name, holder and token of the call. -/
theorem release_spares_others {τ : Time} {key : Key} {holder : String} {token : Int}
    (h : (fresh F cfg τ).Reaches p) (hcall : CallsRelease p q j i l key holder token)
    (htarget : l.spec.target.isSome = true)
    (hunique : ∀ m ∈ (p.shared.clusters j).leases, m.ns = l.ns → m.uid ≠ l.uid →
      m.spec.leaseName ≠ l.spec.leaseName) :
    ∀ m ∈ (p.shared.clusters j).leases, m.ns = l.ns → m.uid ≠ l.uid →
      activeAt m p.shared.clock = true → ∀ a, m.activation = some a →
      ¬ (a.leaseName = key.name ∧ a.holder = holder ∧ a.token = token) := by
  intro m hm hns huid hact a ha hsame
  have hkey := hcall.recorded h htarget
  refine hunique m hm hns huid ?_
  rw [← active_leaseName (site_ok h) hm hact ha, hsame.1, hkey]
  rfl

/-! ### Calls in a script -/

/-- The Release that thread `i` calls next, if it does. -/
def nextRelease (p : Pool (machine F cfg)) (i : Nat) : Option (BerthLease × Key × String × Int) :=
  p.threads[i]?.bind fun t =>
    match t.prog with
    | .op (.post l key (.release (.ok body))) _ => some (l, key, body.holder, body.fencingToken)
    | _ => none

theorem performs_of_step {t : Thread (machine F cfg)} {o : ClusterOp}
    {k : o.Res → Prog ClusterSig Done} {ch : Choice} (hok : Site.Ok F p.shared)
    (ht : p.threads[i]? = some t) (hp : t.prog = .op o k) (hs : p.step (.exec i ch) = some q) :
    ∃ r, Performs p q t.loc.cluster i ⟨o, r⟩ := by
  obtain ⟨t', o', k', r, loc, s, ht', hp', hex, rfl⟩ := Pool.step_exec hs
  rw [ht] at ht'
  cases ht'
  rw [hp] at hp'
  cases hp'
  obtain ⟨_, _, s₁, hlive, rfl⟩ := exec_cases hex
  refine ⟨r, ⟨_, hs⟩, ?_⟩
  show ((s₁.note t.loc.cluster i ⟨o, r⟩).clusters t.loc.cluster).journal = _
  rw [(note_becomes s₁ t.loc.cluster i _).here, ← execLive_journal hok hlive]
  rfl

theorem callsRelease_of_next {choose : Task ι → Site ι cfg → ClusterOp → Choice} {key : Key}
    {holder : String} {token : Int} (hok : Site.Ok F p.shared)
    (h : nextRelease p i = some (l, key, holder, token)) (hgo : p.goOn choose i = some q) :
    ∃ j, CallsRelease p q j i l key holder token := by
  obtain ⟨t, ht, hnext⟩ := Option.bind_eq_some_iff.mp h
  obtain ⟨t', ht', hstep⟩ := Option.bind_eq_some_iff.mp hgo
  rw [ht] at ht'
  cases ht'
  split at hnext
  · next l' key' body k hp =>
    cases hnext
    rw [hp] at hstep
    obtain ⟨r, hperf⟩ := performs_of_step hok ht hp hstep
    exact ⟨_, r, hperf⟩
  · cases hnext

/-! ### Two leases -/

/-- Another lease, for another target. -/
def neighbour (leaseName : String) : BerthLease :=
  { nightly with
    name := "nightly-2", uid := "lease-2"
    spec :=
      { nightly.spec with
        leaseName := leaseName, target := some ⟨"apps/v1", "StatefulSet", "api"⟩ } }

/-- Both are active, then the first is deleted; thread 8 stops it with
write 4, drains, and is about to call Release. -/
def twoRun (m : BerthLease) : Script (solo true) plain :=
  prepare () nightly web 0 0 ++ prepare () m (targetOf m "api" "target-2") 2 1 ++
    activate () nightly 4 0 2 0 ++ activate () m 6 1 3 0 ++
    [happen () (.deleteLease nightly.key), pass () nightly, .go 8 5, handling () 4, .go 9 2,
     .go 8 3]

def apart : Pool (machine (solo true) plain) :=
  (fresh (solo true) plain 0).played prompt (twoRun (neighbour "hourly")) (by decide)

theorem release_spares_others_hourly :
    ∃ q l key holder token, CallsRelease apart q () 8 l key holder token ∧
      (∃ m ∈ (apart.shared.clusters ()).leases, m.ns = l.ns ∧ m.uid ≠ l.uid ∧
        activeAt m apart.shared.clock = true) ∧
      ∀ m ∈ (apart.shared.clusters ()).leases, m.ns = l.ns → m.uid ≠ l.uid →
        activeAt m apart.shared.clock = true → ∀ a, m.activation = some a →
        ¬ (a.leaseName = key.name ∧ a.holder = holder ∧ a.token = token) := by
  have hreach : (fresh (solo true) plain 0).Reaches apart := Pool.reaches_played _
  have hnext : (nextRelease apart 8).any (fun x => decide (x.1.spec.target.isSome = true ∧
      (∀ m ∈ (apart.shared.clusters ()).leases, m.ns = x.1.ns → m.uid ≠ x.1.uid →
        m.spec.leaseName ≠ x.1.spec.leaseName) ∧
      ∃ m ∈ (apart.shared.clusters ()).leases, m.ns = x.1.ns ∧ m.uid ≠ x.1.uid ∧
        activeAt m apart.shared.clock = true)) = true := by decide
  have hgo : (apart.goOn prompt 8).isSome = true := by decide
  obtain ⟨⟨l, key, holder, token⟩, hcall, hrest⟩ := (Option.any_eq_true _ _).mp hnext
  obtain ⟨htarget, hunique, hother⟩ := of_decide_eq_true hrest
  obtain ⟨q, hq⟩ := Option.isSome_iff_exists.mp hgo
  obtain ⟨_, hperf⟩ := callsRelease_of_next (site_ok hreach) hcall hq
  exact ⟨q, l, key, holder, token, hperf, hother,
    release_spares_others hreach hperf htarget hunique⟩

def twins : Pool (machine (solo true) plain) :=
  (fresh (solo true) plain 0).played prompt (twoRun (neighbour "nightly")) (by decide)

/-- With one lease name the call releases the tenure of the second lease,
which is active. -/
theorem release_hits_twin :
    ∃ p q l key holder token, (fresh (solo true) plain 0).Reaches p ∧
      CallsRelease p q () 8 l key holder token ∧ l.spec.target.isSome = true ∧
      ∃ m ∈ (p.shared.clusters ()).leases, m.ns = l.ns ∧ m.uid ≠ l.uid ∧
        activeAt m p.shared.clock = true ∧ ∃ a, m.activation = some a ∧
          a.leaseName = key.name ∧ a.holder = holder ∧ a.token = token := by
  have hreach : (fresh (solo true) plain 0).Reaches twins := Pool.reaches_played _
  have hnext : (nextRelease twins 8).any (fun x => decide (x.1.spec.target.isSome = true ∧
      ∃ m ∈ (twins.shared.clusters ()).leases, m.ns = x.1.ns ∧ m.uid ≠ x.1.uid ∧
        activeAt m twins.shared.clock = true ∧ m.activation.any (fun a => decide
          (a.leaseName = x.2.1.name ∧ a.holder = x.2.2.1 ∧ a.token = x.2.2.2)) = true)) = true := by
    decide
  have hgo : (twins.goOn prompt 8).isSome = true := by decide
  obtain ⟨⟨l, key, holder, token⟩, hcall, hrest⟩ := (Option.any_eq_true _ _).mp hnext
  obtain ⟨htarget, m, hm, hns, huid, hact, hany⟩ := of_decide_eq_true hrest
  obtain ⟨a, ha, hsame⟩ := (Option.any_eq_true _ _).mp hany
  obtain ⟨q, hq⟩ := Option.isSome_iff_exists.mp hgo
  obtain ⟨_, hperf⟩ := callsRelease_of_next (site_ok hreach) hcall hq
  exact ⟨twins, q, l, key, holder, token, hreach, hperf, htarget, m, hm, hns, huid, hact, a, ha,
    of_decide_eq_true hsame⟩

end Berth.Operator
