/-
Berth.Acquire.TurnShapes — the text of a turn of the sidecar.

A run of the sidecar is a sequence of turns: the first Hold, the
confirmation of a handoff, and then one handler after the other. A later
turn has one of three shapes (`Shape`): it leaves the runtime state, it
gives the lease up, or it confirms it, and then the late-response check
is followed by the new deadline and by the marker. Nothing is assumed
about what the sidecar is told.

Hold begins by removing the health marker; Release and WriteAcquired begin
by making the state directory. So calls are read off the effects.
-/
import Berth.Acquire.Effects

namespace Berth.Acquire

open Berth.Interleave Berth.Lease Berth.Api Berth.Client

/-- An effect and its answer. -/
abbrev Told := Interleave.Event HelperSig

/-! ## Calls and readings -/

/-- The effects of Release and WriteAcquired. -/
@[simp] def HelperOp.opens : HelperOp → Bool
  | .mkdirAll | .writeFileAtomic _ _ => true
  | _ => false

/-- An effect that does not open the gate. -/
def HelperOp.Keeps (o : HelperOp) : Prop := o.opens = false

/-- The first effect of Hold. -/
@[simp] def HelperOp.holds : HelperOp → Bool
  | .remove .healthy => true
  | _ => false

@[simp] def HelperOp.assigns : HelperOp → Bool
  | .assign _ => true
  | _ => false

def reading? : Told → Option Time
  | ⟨.now, t⟩ => some t
  | _ => none

/-- The instants that the clock showed. -/
def readings (evs : List Told) : List Time := evs.filterMap reading?

/-- Nothing opens the gate. -/
def Shut (evs : List Told) : Prop := ∀ e ∈ evs, e.1.opens = false

/-- Nothing opens the gate, and nothing closes it. -/
def Calm (evs : List Told) : Prop := ∀ e ∈ evs, e.1.opens = false ∧ e.1.holds = false

/-- Nothing opens or closes the gate, and nothing is assigned. -/
def Still (evs : List Told) : Prop :=
  ∀ e ∈ evs, e.1.opens = false ∧ e.1.holds = false ∧ e.1.assigns = false

/-- Nothing opens the gate, and nothing is assigned. -/
def Mild (evs : List Told) : Prop := ∀ e ∈ evs, e.1.Keeps ∧ e.1.assigns = false

variable {evs evs' : List Told} {r r' : Renewer}

theorem readings_append (evs evs' : List Told) :
    readings (evs ++ evs') = readings evs ++ readings evs' := List.filterMap_append

@[simp] theorem shut_cons {e : Told} : Shut (e :: evs) ↔ e.1.opens = false ∧ Shut evs := by
  simp only [Shut, List.mem_cons, forall_eq_or_imp]

theorem shut_append : Shut (evs ++ evs') ↔ Shut evs ∧ Shut evs' := by
  simp only [Shut, List.forall_mem_append]

@[simp] theorem still_nil : Still [] := List.forall_mem_nil _

@[simp] theorem still_cons {e : Told} :
    Still (e :: evs) ↔
      (e.1.opens = false ∧ e.1.holds = false ∧ e.1.assigns = false) ∧ Still evs := by
  simp only [Still, List.mem_cons, forall_eq_or_imp]

theorem still_append : Still (evs ++ evs') ↔ Still evs ∧ Still evs' := by
  simp only [Still, List.forall_mem_append]

theorem mild_append : Mild (evs ++ evs') ↔ Mild evs ∧ Mild evs' := by
  simp only [Mild, List.forall_mem_append]

theorem Still.calm (h : Still evs) : Calm evs := fun e he => ⟨(h e he).1, (h e he).2.1⟩

theorem Still.mild (h : Still evs) : Mild evs := fun e he => ⟨(h e he).1, (h e he).2.2⟩

theorem Mild.shut (h : Mild evs) : Shut evs := fun e he => (h e he).1

/-! ## Parts of a handler -/

/-- What only closes the gate is mild. -/
theorem mild_of_only {α : Type} {p : Prog HelperSig α} {a : α}
    (hp : p.Only HelperOp.Closes) (h : p.Ran evs a) : Mild evs := by
  intro ⟨o, a⟩ he
  have hcloses := hp.ran h ⟨o, a⟩ he
  cases o with
  | remove f => exact ⟨rfl, rfl⟩
  | findProcesses => exact ⟨rfl, rfl⟩
  | now => exact ⟨rfl, rfl⟩
  | kill pid sig => exact ⟨rfl, rfl⟩
  | _ => cases hcloses

theorem hold_closes {x : Except Err Unit × Renewer} (h : r.hold.Ran evs x) :
    ∀ e ∈ evs, e.1.Closes := by
  have hall : r.hold.Only HelperOp.Closes := (only_hold r.enforcer).bind fun _ => trivial
  exact hall.ran h

/-- Hold closes the gate and leaves the runtime state. -/
theorem hold_ran {err : Except Err Unit} (h : r.hold.Ran evs (err, r')) :
    r'.rt = r.rt ∧ r'.cfg = r.cfg ∧ Mild evs ∧ ∃ e ∈ evs, e.1.holds = true := by
  obtain ⟨evs₁, evs₂, x, rfl, hhold, hk⟩ := Prog.Ran.of_bind h
  obtain ⟨rfl, hx⟩ := hk.of_ret
  cases hx
  rw [List.append_nil]
  refine ⟨rfl, rfl, mild_of_only (only_hold r.enforcer) hhold, ?_⟩
  obtain ⟨a, evs', rfl⟩ : ∃ a evs', evs₁ = (⟨.remove .healthy, a⟩ : Told) :: evs' := by
    cases henf : r.enforcer with
    | probe =>
      rw [henf] at hhold
      cases hhold with
      | op _ => exact ⟨_, _, rfl⟩
    | signal s =>
      rw [henf] at hhold
      cases hhold with
      | op _ => exact ⟨_, _, rfl⟩
  exact ⟨_, List.mem_cons_self, rfl⟩

theorem set_ran {rt : Runtime} {α : Type} {k : Renewer → Prog HelperSig α} {a : α}
    (h : ((r.set rt).bind k).Ran evs a) :
    ∃ evs', evs = (⟨.assign rt, ()⟩ : Told) :: evs' ∧ (k { r with rt := rt }).Ran evs' a := by
  obtain ⟨_, evs', rfl, hk⟩ := Prog.Ran.of_perform h
  exact ⟨evs', rfl, hk⟩

/-- Losing the lease closes the gate. -/
theorem lose_ran (h : r.lose.Ran evs r') :
    r'.rt = { r.rt with held := false } ∧ r'.cfg = r.cfg ∧
      ∃ evs', evs = (⟨.assign r'.rt, ()⟩ : Told) :: evs' ∧ Mild evs' ∧
        ∃ e ∈ evs', e.1.holds = true := by
  obtain ⟨evs₁, rfl, h₁⟩ := set_ran h
  obtain ⟨evs₂, evs₃, ⟨err, r''⟩, rfl, hhold, hk⟩ := Prog.Ran.of_bind h₁
  obtain ⟨rfl, rfl⟩ := hk.of_ret
  obtain ⟨hrt, hcfg, hmild, hholds⟩ := hold_ran hhold
  rw [List.append_nil]
  exact ⟨hrt, hcfg, evs₂, by rw [hrt], hmild, hholds⟩

/-- A request and what the client makes of its answer. -/
theorem call_ran {α : Type} {key : Key} {endpoint : Endpoint} {dec : Response → Except Err α}
    {ans : Except Err α}
    (h : ((post key endpoint).bind fun id => LeaseClient.finish id dec).Ran evs ans) :
    ∃ id a, evs = [⟨.post key endpoint, id⟩, ⟨.await id, a⟩] ∧
      ∀ x, ans = .ok x → ∃ resp, a = .ok resp ∧ dec resp = .ok x := by
  obtain ⟨id, evs₁, rfl, h₁⟩ := Prog.Ran.of_perform h
  obtain ⟨a, evs₂, rfl, h₂⟩ := Prog.Ran.of_perform h₁
  cases a with
  | error e =>
    obtain ⟨rfl, rfl⟩ := h₂.of_ret
    exact ⟨id, _, rfl, fun x hx => nomatch hx⟩
  | ok resp =>
    obtain ⟨rfl, rfl⟩ := h₂.of_ret
    exact ⟨id, _, rfl, fun x hx => ⟨resp, rfl, hx⟩⟩

/-- The deadline of a request is at most one heartbeat away. -/
theorem tickCtx_ran {t : Time} (h : r.tickCtx.Ran evs t) :
    ∃ τ : Time, evs = [(⟨.now, τ⟩ : Told)] ∧ t ≤ τ + r.cfg.heartbeatInterval := by
  obtain ⟨τ, evs₁, rfl, h₁⟩ := Prog.Ran.of_perform h
  dsimp only at h₁
  split at h₁
  · next hexp =>
    obtain ⟨rfl, rfl⟩ := h₁.of_ret
    exact ⟨τ, rfl, Int.le_of_lt hexp.2.2⟩
  · obtain ⟨rfl, rfl⟩ := h₁.of_ret
    exact ⟨τ, rfl, Int.le_refl _⟩

/-- The answers on which a renewal is not too late. -/
theorem renewedTooLate_ran {deadline started : Time} {late : Bool}
    (h : (r.renewedTooLate deadline started).Ran evs late) :
    Still evs ∧ (late = false → ∃ (check : Time) (evs' : List Told),
      evs = (⟨.rpcCtxErr deadline, false⟩ : Told) :: ⟨.now, check⟩ :: evs' ∧
      check < started + r.cfg.ttl ∧
      (r.rt.expiresAt = zeroTime ∧ evs' = [] ∨
        ∃ τ : Time, evs' = [(⟨.now, τ⟩ : Told)] ∧ τ < r.rt.expiresAt)) := by
  obtain ⟨done, evs₁, rfl, h₁⟩ := Prog.Ran.of_perform h
  cases done with
  | true =>
    obtain ⟨rfl, rfl⟩ := h₁.of_ret
    exact ⟨by simp, nofun⟩
  | false =>
    obtain ⟨check, evs₂, rfl, h₂⟩ := Prog.Ran.of_perform h₁
    split at h₂
    · obtain ⟨rfl, rfl⟩ := h₂.of_ret
      exact ⟨by simp, nofun⟩
    rename_i hcheck
    split at h₂
    · obtain ⟨τ, evs₃, rfl, h₃⟩ := Prog.Ran.of_perform h₂
      obtain ⟨rfl, rfl⟩ := h₃.of_ret
      refine ⟨by simp, fun hlate => ?_⟩
      exact ⟨check, _, rfl, by simpa using hcheck, .inr ⟨τ, rfl, by simpa using hlate⟩⟩
    · next hzero =>
      obtain ⟨rfl, rfl⟩ := h₂.of_ret
      refine ⟨by simp, fun _ => ?_⟩
      exact ⟨check, _, rfl, by simpa using hcheck, .inl ⟨not_not.mp hzero, rfl⟩⟩

theorem acquiredTooLate_ran {deadline started : Time} {late : Bool}
    (h : (r.acquiredTooLate deadline started).Ran evs late) :
    Still evs ∧ (late = false → ∃ check : Time, evs = [(⟨.rpcCtxErr deadline, false⟩ : Told),
      ⟨.now, check⟩] ∧ check < started + r.cfg.ttl) := by
  obtain ⟨done, evs₁, rfl, h₁⟩ := Prog.Ran.of_perform h
  cases done with
  | true =>
    obtain ⟨rfl, rfl⟩ := h₁.of_ret
    exact ⟨by simp, nofun⟩
  | false =>
    obtain ⟨check, evs₂, rfl, h₂⟩ := Prog.Ran.of_perform h₁
    obtain ⟨rfl, rfl⟩ := h₂.of_ret
    exact ⟨by simp, fun hlate =>
      ⟨check, rfl, by simpa using hlate⟩⟩

/-! ## Shapes -/

/-- The runtime state after some effects. -/
def assigned (rt : Runtime) (evs : List Told) : Runtime :=
  evs.foldl (fun rt e => match e with
    | ⟨.assign rt', _⟩ => rt'
    | _ => rt) rt

theorem assigned_append (rt : Runtime) : assigned rt (evs ++ evs') = assigned (assigned rt evs) evs' :=
  List.foldl_append

@[simp] theorem assigned_concat (rt rt' : Runtime) (u : Unit) :
    assigned rt (evs ++ [⟨.assign rt', u⟩]) = rt' := by
  rw [assigned_append]
  rfl

/-- Without assignments the runtime state stays. -/
theorem assigned_of_none {rt : Runtime} (h : ∀ e ∈ evs, e.1.assigns = false) :
    assigned rt evs = rt := by
  induction evs with
  | nil => rfl
  | cons e evs ih =>
    obtain ⟨o, a⟩ := e
    have he := h ⟨o, a⟩ List.mem_cons_self
    have hrest := ih fun x hx => h x (List.mem_cons_of_mem _ hx)
    cases o with
    | assign rt' => cases he
    | _ => exact hrest

theorem assigned_mild {rt : Runtime} (h : Mild evs) : assigned rt evs = rt :=
  assigned_of_none fun e he => (h e he).2

theorem assigned_opens {rt : Runtime} (h : ∀ e ∈ evs, e.1.opens = true) : assigned rt evs = rt := by
  refine assigned_of_none fun e he => ?_
  obtain ⟨o, a⟩ := e
  have hopens := h ⟨o, a⟩ he
  cases o with
  | assign rt' => cases hopens
  | _ => rfl

/-- A marker write, or the making of its directory, that fails. -/
def unmarked : Told → Bool
  | ⟨.mkdirAll, .error _⟩ => true
  | ⟨.writeFileAtomic .healthy _, .error _⟩ => true
  | _ => false

/-- Marker writes succeed. -/
def Writes (evs : List Told) : Prop := ∀ e ∈ evs, unmarked e = false

instance : Decidable (Writes evs) := inferInstanceAs (Decidable (∀ e ∈ evs, unmarked e = false))

theorem Writes.of_append (h : Writes (evs ++ evs')) : Writes evs ∧ Writes evs' :=
  List.forall_mem_append.mp h

theorem Writes.of_cons {x : Told} (h : Writes (x :: evs)) : Writes evs :=
  (List.forall_mem_cons.mp h).2

/-- The effects end with a granted request, started at `s` and bounded by
the deadline `d`; the clock is read for each of the two. -/
def Grant (r : Renewer) (s d : Time) (evs : List Told) : Prop :=
  ∃ (pre : List Told) (a b : Time) (endpoint : Endpoint) (id : Nat) (resp : Response)
    (res : AcquireResult),
    evs = pre ++ [⟨.now, a⟩, ⟨.now, b⟩, ⟨.post r.cfg.key endpoint, id⟩, ⟨.await id, .ok resp⟩] ∧
    (s = a ∧ d ≤ b + r.cfg.heartbeatInterval ∨ s = b ∧ d ≤ a + r.cfg.heartbeatInterval) ∧
    (endpoint = renewEndpoint r.rt.holder r.rt.token r.cfg.ttl ∨
      endpoint = acquireEndpoint r.rt.holder r.cfg.ttl) ∧
    decode resp = .ok res ∧ res.acquired = true

/-- A clock reading or an assignment that keeps the deadline or sets it to
`exp`. -/
def Sets (r : Renewer) (exp : Time) (e : Told) : Prop :=
  (∃ t : Time, e = ⟨.now, t⟩) ∨
    ∃ rt, e = ⟨.assign rt, ()⟩ ∧ (rt.expiresAt = r.rt.expiresAt ∨ rt.expiresAt = exp)

/-- If a deadline is in force for a held lease, it is still to come. -/
def InTime (r : Renewer) (t : Time) : Prop :=
  r.rt.held = true → r.rt.expiresAt ≠ zeroTime → t < r.rt.expiresAt

/-- The last time that the clock was read was in time. -/
def Timely (r : Renewer) (evs : List Told) : Prop :=
  ∀ t, (readings evs).getLast? = some t → InTime r t

/-- Without a deadline any time will do. -/
theorem timely_of_none (h : r.rt.held = true → r.rt.expiresAt = zeroTime) : Timely r evs :=
  fun _ _ hheld hne => absurd (h hheld) hne

theorem last_reading (evs : List Told) (t : Time) (hnone : readings evs' = []) :
    (readings (evs ++ ⟨.now, t⟩ :: evs')).getLast? = some t := by
  have hcons : readings ((⟨.now, t⟩ : Told) :: evs') = [t] := by
    rw [← hnone]
    rfl
  rw [readings_append, hcons, List.getLast?_concat]

theorem timely_of_last {t : Time} (hnone : readings evs' = []) (h : InTime r t) :
    Timely r (evs ++ ⟨.now, t⟩ :: evs') := by
  intro t' ht'
  rw [← Option.some.inj ((last_reading evs t hnone).symm.trans ht')]
  exact h

/-- The marker's text at the end of a confirmation. -/
def marked : Told := ⟨.writeFileAtomic .healthy "ok\n", .ok ()⟩

/-- What the text of a turn can be. -/
inductive Shape (r : Renewer) : List Told → Renewer → Prop where
  | quiet {evs : List Told} {r' : Renewer} (same : r'.rt = r.rt) (mild : Mild evs)
      (still : r.rt.held = true → Still evs) (timely : Timely r evs) : Shape r evs r'
  | lost {A B : List Told} {r' : Renewer} (lost : r'.rt = { r.rt with held := false })
      (before : Still A) (after : Mild B) (holds : ∃ e ∈ B, e.1.holds = true) :
      Shape r (A ++ ⟨.assign r'.rt, ()⟩ :: B) r'
  | confirmed {A B C : List Told} {s d : Time} {r' : Renewer}
      (held : r'.rt.held = true) (expires : r'.rt.expiresAt = s + r.cfg.ttl) (mild : Mild A)
      (still : r.rt.held = true → Still A) (grant : Grant r s d A)
      (checked : ∃ (check : Time) (B' : List Told), B = ⟨.now, check⟩ :: B' ∧
        check < s + r.cfg.ttl) (timely : Timely r B)
      (sets : ∀ e ∈ B, Sets r (s + r.cfg.ttl) e) (assigned : assigned r.rt B = r'.rt)
      (opens : ∀ e ∈ C, e.1.opens = true)
      (marks : Writes C → ∃ C', C = C' ++ [marked]) :
      Shape r (A ++ ⟨.rpcCtxErr d, false⟩ :: (B ++ C)) r'

/-! ## Opening the gate -/

theorem opens_markHealthy : State.markHealthy.Only fun o => HelperOp.opens o = true := by
  refine ⟨rfl, fun made => ?_⟩
  cases made with
  | error e => trivial
  | ok _ =>
    refine ⟨rfl, fun wrote => ?_⟩
    cases wrote <;> trivial

theorem markHealthy_ran {a : Except Err Unit} (h : State.markHealthy.Ran evs a) (hw : Writes evs) :
    ∃ evs', evs = evs' ++ [marked] := by
  obtain ⟨made, evs₁, rfl, h₁⟩ := Prog.Ran.of_perform h
  cases made with
  | error e => cases hw _ List.mem_cons_self
  | ok _ =>
    obtain ⟨wrote, evs₂, rfl, h₂⟩ := Prog.Ran.of_perform h₁
    cases wrote with
    | error e => cases hw _ (List.mem_cons_of_mem _ List.mem_cons_self)
    | ok _ =>
      obtain ⟨rfl, -⟩ := h₂.of_ret
      exact ⟨[⟨.mkdirAll, .ok ()⟩], rfl⟩

/-- Release is one attempt to write the marker. -/
theorem release_ran {e : Enforcer} {x : Except Err Unit × Enforcer} (h : e.release.Ran evs x) :
    ∃ a, State.markHealthy.Ran evs a := by
  cases e with
  | probe =>
    obtain ⟨evs₁, evs₂, a, rfl, hmark, hk⟩ := Prog.Ran.of_bind h
    obtain ⟨rfl, -⟩ := hk.of_ret
    rw [List.append_nil]
    exact ⟨a, hmark⟩
  | signal s =>
    obtain ⟨evs₁, evs₂, y, rfl, hrel, hk⟩ := Prog.Ran.of_bind h
    obtain ⟨rfl, -⟩ := hk.of_ret
    obtain ⟨evs₃, evs₄, a, rfl, hmark, hk⟩ := Prog.Ran.of_bind hrel
    obtain ⟨rfl, -⟩ := hk.of_ret
    rw [List.append_nil, List.append_nil]
    exact ⟨a, hmark⟩

theorem ungate_ran (h : r.ungate.Ran evs r') : r'.rt = r.rt ∧ r'.cfg = r.cfg ∧
    (∀ e ∈ evs, e.1.opens = true) ∧ (Writes evs → ∃ evs', evs = evs' ++ [marked]) := by
  obtain ⟨evs₁, evs₂, x, rfl, hrel, hk⟩ := Prog.Ran.of_bind h
  obtain ⟨rfl, rfl⟩ := hk.of_ret
  obtain ⟨a, hmark⟩ := release_ran hrel
  rw [List.append_nil]
  exact ⟨rfl, rfl, opens_markHealthy.ran hmark, markHealthy_ran hmark⟩

/-- Recording an acquisition only makes the directory and writes files. -/
theorem writeAcquired_opens {holder : String} {token : Int} {a : Except Err Unit}
    (h : (State.writeAcquired holder token).Ran evs a) : ∀ e ∈ evs, e.1.opens = true := by
  have hall : (State.writeAcquired holder token).Only fun o => HelperOp.opens o = true := by
    refine ⟨rfl, fun made => ?_⟩
    cases made with
    | error e => trivial
    | ok _ =>
      refine ⟨rfl, fun wrote => ?_⟩
      cases wrote with
      | error e => trivial
      | ok _ =>
        refine ⟨rfl, fun wrote => ?_⟩
        cases wrote with
        | error e => trivial
        | ok _ => exact opens_markHealthy
  exact hall.ran h

/-! ## Handlers -/

theorem lose_shape {pre : List Told} (hpre : Still pre) (h : r.lose.Ran evs r') :
    r'.cfg = r.cfg ∧ Shape r (pre ++ evs) r' := by
  obtain ⟨hlost, hcfg, evs', rfl, hmild, hholds⟩ := lose_ran h
  exact ⟨hcfg, .lost hlost hpre hmild hholds⟩

theorem renewed_shape {deadline started : Time} {ans : Except Err AcquireResult} {pre : List Told}
    (hpre : Still pre) (hheld : r.rt.held = true)
    (hgrant : ∀ res, ans = .ok res → res.acquired = true → Grant r started deadline pre)
    (h : (r.renewed deadline started ans).Ran evs r') :
    r'.cfg = r.cfg ∧ Shape r (pre ++ evs) r' := by
  unfold Renewer.renewed at h
  cases ans with
  | error e =>
    dsimp only at h
    split at h
    · exact lose_shape hpre h
    obtain ⟨τ, evs₁, rfl, h₁⟩ := Prog.Ran.of_perform h
    have hstill : Still (pre ++ [⟨.now, τ⟩]) := still_append.mpr ⟨hpre, by simp⟩
    split at h₁
    · rw [List.append_cons]
      exact lose_shape hstill h₁
    rename_i hτ
    obtain ⟨rfl, rfl⟩ := h₁.of_ret
    have hin : InTime r τ := fun _ _ => by simpa using hτ
    exact ⟨rfl, .quiet rfl hstill.mild (fun _ => hstill) (timely_of_last rfl hin)⟩
  | ok res =>
    dsimp only at h
    split at h
    · exact lose_shape hpre h
    rename_i hacq
    obtain ⟨evs₁, evs₂, late, rfl, hlate, h₁⟩ := Prog.Ran.of_bind h
    obtain ⟨hstill, hgood⟩ := renewedTooLate_ran hlate
    cases late with
    | true =>
      rw [← List.append_assoc]
      exact lose_shape (still_append.mpr ⟨hpre, hstill⟩) h₁
    | false =>
      obtain ⟨check, evs₃, rfl, hcheck, hread⟩ := hgood rfl
      obtain ⟨evs₄, rfl, h₂⟩ := set_ran h₁
      obtain ⟨evs₅, rfl, h₃⟩ := set_ran h₂
      obtain ⟨hrt, hcfg, hopens, hmarks⟩ := ungate_ran h₃
      have hreads : ∀ e ∈ evs₃, ∃ t : Time, e = ⟨.now, t⟩ := by
        rcases hread with ⟨-, rfl⟩ | ⟨τ, rfl, -⟩
        · exact List.forall_mem_nil _
        · exact List.forall_mem_singleton.mpr ⟨τ, rfl⟩
      have hend : ∀ l n a₁ a₂ : Told, pre ++ (l :: n :: evs₃ ++ a₁ :: a₂ :: evs₅) =
          pre ++ l :: (((n :: evs₃ ++ [a₁]) ++ [a₂]) ++ evs₅) := by
        simp
      rw [hend]
      refine ⟨hcfg, .confirmed (by rw [hrt]; exact hheld) (by rw [hrt]) hpre.mild (fun _ => hpre)
        (hgrant res rfl (by simpa using hacq)) ⟨check, _, rfl, hcheck⟩ ?_ ?_ ?_ hopens hmarks⟩
      · rcases hread with ⟨hzero, rfl⟩ | ⟨τ, rfl, hτ⟩
        · exact timely_of_none fun _ => hzero
        · rw [List.append_assoc]
          change Timely _ ([⟨.now, check⟩] ++ ⟨.now, τ⟩ :: _)
          exact timely_of_last rfl fun _ _ => hτ
      · intro e he
        simp only [List.mem_append, List.mem_cons, List.not_mem_nil, or_false] at he
        rcases he with ((rfl | he) | rfl) | rfl
        · exact .inl ⟨check, rfl⟩
        · exact .inl (hreads e he)
        · exact .inr ⟨_, rfl, .inl rfl⟩
        · exact .inr ⟨_, rfl, .inr rfl⟩
      · rw [assigned_concat, hrt]

theorem tickHeld_shape {pre : List Told} (hpre : Still pre) (hheld : r.rt.held = true)
    (h : r.tickHeld.Ran evs r') : r'.cfg = r.cfg ∧ Shape r (pre ++ evs) r' := by
  obtain ⟨started, evs₁, rfl, h₁⟩ := Prog.Ran.of_perform h
  have hstart : Still (pre ++ [⟨.now, started⟩]) := still_append.mpr ⟨hpre, by simp⟩
  split at h₁
  · rw [List.append_cons]
    exact lose_shape hstart h₁
  obtain ⟨evs₂, evs₃, deadline, rfl, hctx, h₂⟩ := Prog.Ran.of_bind h₁
  obtain ⟨evs₄, evs₅, ans, rfl, hcall, h₃⟩ := Prog.Ran.of_bind h₂
  obtain ⟨τ, rfl, hdeadline⟩ := tickCtx_ran hctx
  obtain ⟨id, a, rfl, hans⟩ := call_ran hcall
  have hsplit : pre ++ ((⟨.now, started⟩ : Told) :: ([⟨.now, τ⟩] ++ ([⟨.post r.cfg.key
      (renewEndpoint r.rt.holder r.rt.token r.cfg.ttl), id⟩, ⟨.await id, a⟩] ++ evs₅))) =
      (pre ++ [⟨.now, started⟩, ⟨.now, τ⟩, ⟨.post r.cfg.key
        (renewEndpoint r.rt.holder r.rt.token r.cfg.ttl), id⟩, ⟨.await id, a⟩]) ++ evs₅ := by
    simp
  rw [hsplit]
  refine renewed_shape (still_append.mpr ⟨hpre, by simp⟩) hheld (fun res hok hacq => ?_) h₃
  obtain ⟨resp, rfl, hdec⟩ := hans res hok
  exact ⟨pre, started, τ, _, id, resp, res, rfl, .inl ⟨rfl, hdeadline⟩, .inl rfl, hdec, hacq⟩

theorem tickReacquire_shape {pre : List Told} (hpre : Still pre) (hheld : r.rt.held = false)
    (h : r.tickReacquire.Ran evs r') : r'.cfg = r.cfg ∧ Shape r (pre ++ evs) r' := by
  obtain ⟨evs₁, evs₂, ⟨err, r₁⟩, rfl, hhold, h₁⟩ := Prog.Ran.of_bind h
  obtain ⟨hrt, hcfg, hmild, -⟩ := hold_ran hhold
  obtain ⟨evs₃, evs₄, deadline, rfl, hctx, h₂⟩ := Prog.Ran.of_bind h₁
  obtain ⟨started, evs₅, rfl, h₃⟩ := Prog.Ran.of_perform h₂
  obtain ⟨evs₆, evs₇, ans, rfl, hcall, h₄⟩ := Prog.Ran.of_bind h₃
  obtain ⟨τ, rfl, hdeadline⟩ := tickCtx_ran hctx
  obtain ⟨id, a, rfl, hans⟩ := call_ran hcall
  rw [hcfg] at hdeadline
  rw [hcfg, hrt]
  have hnot : r.rt.held ≠ true := by rw [hheld]; decide
  have htimely : ∀ evs', Timely r evs' := fun _ => timely_of_none fun hh => absurd hh hnot
  -- the part up to the answer
  have hasked : Mild (pre ++ evs₁ ++ [⟨.now, τ⟩, ⟨.now, started⟩, ⟨.post r.cfg.key
      (acquireEndpoint r.rt.holder r.cfg.ttl), id⟩, ⟨.await id, a⟩]) := by
    refine mild_append.mpr ⟨mild_append.mpr ⟨hpre.mild, hmild⟩, ?_⟩
    exact Still.mild (by simp)
  have hsplit : pre ++ (evs₁ ++ ([⟨.now, τ⟩] ++ (⟨.now, started⟩ :: ([⟨.post r.cfg.key
      (acquireEndpoint r.rt.holder r.cfg.ttl), id⟩, ⟨.await id, a⟩] ++ evs₇)))) =
      (pre ++ evs₁ ++ [⟨.now, τ⟩, ⟨.now, started⟩, ⟨.post r.cfg.key
        (acquireEndpoint r.rt.holder r.cfg.ttl), id⟩, ⟨.await id, a⟩]) ++ evs₇ := by
    simp
  rw [hsplit]
  have hquiet : ∀ {evs' : List Told} {r'' : Renewer}, Mild evs' → r''.rt = r.rt →
      Shape r (pre ++ evs₁ ++ [⟨.now, τ⟩, ⟨.now, started⟩, ⟨.post r.cfg.key
        (acquireEndpoint r.rt.holder r.cfg.ttl), id⟩, ⟨.await id, a⟩] ++ evs') r'' :=
    fun hmild' hsame => .quiet hsame (mild_append.mpr ⟨hasked, hmild'⟩) (fun hh => absurd hh hnot)
      (htimely _)
  unfold Renewer.reacquired at h₄
  cases ans with
  | error e =>
    obtain ⟨rfl, rfl⟩ := h₄.of_ret
    exact ⟨hcfg, hquiet (List.forall_mem_nil _) hrt⟩
  | ok res =>
    dsimp only at h₄
    split at h₄
    · obtain ⟨rfl, rfl⟩ := h₄.of_ret
      exact ⟨hcfg, hquiet (List.forall_mem_nil _) hrt⟩
    rename_i hacq
    obtain ⟨evs₈, evs₉, late, rfl, hlate, h₅⟩ := Prog.Ran.of_bind h₄
    obtain ⟨hstill, hgood⟩ := acquiredTooLate_ran hlate
    cases late with
    | true =>
      obtain ⟨rfl, rfl⟩ := h₅.of_ret
      rw [List.append_nil]
      exact ⟨hcfg, hquiet hstill.mild hrt⟩
    | false =>
      obtain ⟨check, rfl, hcheck⟩ := hgood rfl
      obtain ⟨resp, rfl, hdec⟩ := hans res rfl
      obtain ⟨evs₁₀, rfl, h₆⟩ := set_ran h₅
      obtain ⟨evs₁₁, rfl, h₇⟩ := set_ran h₆
      obtain ⟨evs₁₂, rfl, h₈⟩ := set_ran h₇
      obtain ⟨evs₁₃, evs₁₄, _, rfl, hacquired, h₉⟩ := Prog.Ran.of_bind h₈
      obtain ⟨hrt', hcfg', hopens, hmarks⟩ := ungate_ran h₉
      dsimp only at hrt' ⊢
      rw [hcfg, hrt] at hrt' ⊢
      rw [hcfg] at hcheck
      have hend : ∀ (X : List Told) (l n a₁ a₂ a₃ : Told), X ++ ([l, n] ++ a₁ :: a₂ :: a₃ ::
          (evs₁₃ ++ evs₁₄)) = X ++ l :: (([n, a₁, a₂] ++ [a₃]) ++ (evs₁₃ ++ evs₁₄)) := by
        simp
      rw [hend]
      refine ⟨hcfg'.trans hcfg, .confirmed (by rw [hrt']) (by rw [hrt']) hasked
        (fun hh => absurd hh hnot) ⟨pre ++ evs₁, τ, started, _, id, resp, res, rfl,
          .inr ⟨rfl, hdeadline⟩, .inr rfl, hdec, by simpa using hacq⟩ ⟨check, _, rfl, hcheck⟩
        (htimely _) ?_ ?_ ?_ ?_⟩
      · intro e he
        simp only [List.mem_append, List.mem_cons, List.not_mem_nil, or_false] at he
        rcases he with (rfl | rfl | rfl) | rfl
        · exact .inl ⟨check, rfl⟩
        · exact .inr ⟨_, rfl, .inl rfl⟩
        · exact .inr ⟨_, rfl, .inr rfl⟩
        · exact .inr ⟨_, rfl, .inr rfl⟩
      · rw [assigned_concat, hrt']
      · exact List.forall_mem_append.mpr ⟨writeAcquired_opens hacquired, hopens⟩
      · intro hw
        obtain ⟨evs', rfl⟩ := hmarks hw.of_append.2
        exact ⟨evs₁₃ ++ evs', by rw [List.append_assoc]⟩

theorem confirm_shape (h : r.confirm.Ran evs r') : r'.cfg = r.cfg ∧ Shape r evs r' := by
  unfold Renewer.confirm at h
  split at h
  · next hheld =>
    obtain ⟨done, evs₁, rfl, h₁⟩ := Prog.Ran.of_perform h
    have hstill : Still [⟨.ctxErr, done⟩] := by simp
    cases done with
    | true =>
      obtain ⟨rfl, rfl⟩ := h₁.of_ret
      exact ⟨rfl, .quiet rfl hstill.mild (fun _ => hstill) nofun⟩
    | false => exact tickHeld_shape hstill hheld h₁
  · obtain ⟨rfl, rfl⟩ := h.of_ret
    exact ⟨rfl, .quiet rfl still_nil.mild (fun _ => still_nil) nofun⟩

/-! ## Turns -/

/-- The parts of `Run`: loading the handoff with the first Hold, confirming
the handoff, and the two handlers of the loop. -/
inductive Handler where
  | start
  | confirm
  | expiry
  | heartbeat
  deriving DecidableEq

/-- A handler takes the renewer from `r` to `r'`. In the loop, the timer is
armed and the loop woken first. -/
inductive Takes : Handler → Renewer → List Told → Renewer → Prop where
  | start {r r₁ r' : Renewer} {evs₁ evs₂ : List Told} (hload : r.loadHandoff.Ran evs₁ r₁)
      (hhold : r₁.hold.Ran evs₂ (.ok (), r')) : Takes .start r (evs₁ ++ evs₂) r'
  | confirm {r r' : Renewer} {evs : List Told} (h : r.confirm.Ran evs r') :
      Takes .confirm r evs r'
  | expiry {r r' : Renewer} {evs₁ evs₂ : List Told} {timer : Option Duration}
      (htimer : r.expiryTimer.Ran evs₁ timer) (h : r.lose.Ran evs₂ r') :
      Takes .expiry r (evs₁ ++ [⟨.select timer, Event.expiry⟩] ++ evs₂) r'
  | renew {r r' : Renewer} {evs₁ evs₂ : List Told} {timer : Option Duration}
      (htimer : r.expiryTimer.Ran evs₁ timer) (hheld : r.rt.held = true)
      (h : r.tickHeld.Ran evs₂ r') :
      Takes .heartbeat r (evs₁ ++ [⟨.select timer, Event.tick⟩] ++ evs₂) r'
  | reacquire {r r' : Renewer} {evs₁ evs₂ : List Told} {timer : Option Duration}
      (htimer : r.expiryTimer.Ran evs₁ timer) (hheld : r.rt.held = false)
      (h : r.tickReacquire.Ran evs₂ r') :
      Takes .heartbeat r (evs₁ ++ [⟨.select timer, Event.tick⟩] ++ evs₂) r'

theorem expiryTimer_ran {timer : Option Duration} (h : r.expiryTimer.Ran evs timer) :
    evs = [] ∨ ∃ τ : Time, evs = [⟨.now, τ⟩] := by
  unfold Renewer.expiryTimer at h
  split at h
  · obtain ⟨τ, evs₁, rfl, h₁⟩ := Prog.Ran.of_perform h
    obtain ⟨rfl, -⟩ := h₁.of_ret
    exact .inr ⟨τ, rfl⟩
  · exact .inl h.of_ret.1

/-- Up to its wake-up a turn of the loop does nothing. -/
theorem still_woken {timer timer' : Option Duration} {e : Event}
    (h : r.expiryTimer.Ran evs timer) : Still (evs ++ [⟨.select timer', e⟩]) := by
  rcases expiryTimer_ran h with rfl | ⟨τ, rfl⟩
  · simp
  · simp

/-- Every turn after the first has a shape. -/
theorem Takes.shape {handler : Handler} (h : Takes handler r evs r') (hnext : handler ≠ .start) :
    r'.cfg = r.cfg ∧ Shape r evs r' := by
  cases h with
  | start hload hhold => exact absurd rfl hnext
  | confirm h => exact confirm_shape h
  | expiry htimer hlose => exact lose_shape (still_woken htimer) hlose
  | renew htimer hheld h => exact tickHeld_shape (still_woken htimer) hheld h
  | reacquire htimer hheld h => exact tickReacquire_shape (still_woken htimer) hheld h

/-! ## The first turn -/

/-- The marker was removed, or found missing. -/
def Removed (e : Told) : Prop :=
  e = ⟨.remove .healthy, .ok ()⟩ ∨ e = ⟨.remove .healthy, .error .absent⟩

theorem markUnhealthy_removed (h : State.markUnhealthy.Ran evs (.ok ())) :
    ∃ e ∈ evs, Removed e := by
  obtain ⟨a, evs₁, rfl, h₁⟩ := Prog.Ran.of_perform h
  rcases a with (_ | e) | u
  · exact ⟨_, List.mem_cons_self, .inr rfl⟩
  · obtain ⟨-, heq⟩ := h₁.of_ret
    cases heq
  · exact ⟨_, List.mem_cons_self, .inl rfl⟩

theorem signal_error {pid : Nat} {sig : Signal} {what : String} {e : Err} {a : Except Err Unit}
    (h : (SignalEnforcer.signal pid sig what (.error e)).Ran evs a) : ∃ e', a = .error e' := by
  obtain ⟨sent, evs₁, rfl, h₁⟩ := Prog.Ran.of_perform h
  rcases sent with (_ | e') | u
  · exact ⟨e, h₁.of_ret.2.symm⟩
  · exact ⟨_, h₁.of_ret.2.symm⟩
  · exact ⟨e, h₁.of_ret.2.symm⟩

/-- What failed before the signals stays failed. -/
theorem holdLoop_error {now : Time} {pids : List Nat} {s s' : SignalEnforcer} {e : Err}
    {a : Except Err Unit} (h : (SignalEnforcer.holdLoop now pids s (.error e)).Ran evs (a, s')) :
    ∃ e', a = .error e' := by
  induction pids generalizing s e evs with
  | nil =>
    obtain ⟨-, heq⟩ := Prog.Ran.of_ret h
    cases heq
    exact ⟨e, rfl⟩
  | cons pid pids ih =>
    unfold SignalEnforcer.holdLoop at h
    split at h
    · obtain ⟨evs₁, evs₂, b, rfl, hsignal, hrest⟩ := Prog.Ran.of_bind h
      obtain ⟨e', rfl⟩ := signal_error hsignal
      exact ih hrest
    · split at h
      · obtain ⟨evs₁, evs₂, b, rfl, hsignal, hrest⟩ := Prog.Ran.of_bind h
        obtain ⟨e', rfl⟩ := signal_error hsignal
        exact ih hrest
      · exact ih h

/-- A Hold that succeeds leaves no marker. -/
theorem hold_removed (h : r.hold.Ran evs (.ok (), r')) : ∃ e ∈ evs, Removed e := by
  obtain ⟨evs₁, evs₂, ⟨a, enf⟩, rfl, hhold, hk⟩ := Prog.Ran.of_bind h
  obtain ⟨rfl, heq⟩ := hk.of_ret
  cases heq
  rw [List.append_nil]
  cases henf : r.enforcer with
  | probe =>
    rw [henf] at hhold
    obtain ⟨evs₃, evs₄, b, rfl, hmark, hk⟩ := Prog.Ran.of_bind hhold
    obtain ⟨rfl, heq⟩ := hk.of_ret
    cases heq
    rw [List.append_nil]
    exact markUnhealthy_removed hmark
  | signal s =>
    rw [henf] at hhold
    obtain ⟨evs₃, evs₄, ⟨b, s'⟩, rfl, hsig, hk⟩ := Prog.Ran.of_bind hhold
    obtain ⟨rfl, heq⟩ := hk.of_ret
    cases heq
    obtain ⟨evs₅, evs₆, failures, rfl, hmark, h₁⟩ := Prog.Ran.of_bind hsig
    rw [List.append_nil]
    cases failures with
    | ok u =>
      obtain ⟨e, he, hrem⟩ := markUnhealthy_removed hmark
      exact ⟨e, List.mem_append_left _ he, hrem⟩
    | error e =>
      obtain ⟨found, evs₇, rfl, h₂⟩ := Prog.Ran.of_perform h₁
      cases found with
      | error e' =>
        obtain ⟨-, heq⟩ := h₂.of_ret
        cases heq
      | ok pids =>
        obtain ⟨now, evs₈, rfl, h₃⟩ := Prog.Ran.of_perform h₂
        obtain ⟨e', heq⟩ := holdLoop_error h₃
        cases heq

theorem readToken_ran {token : Except Err Int} (h : State.readToken.Ran evs token) :
    ∃ text, evs = [⟨.readFile .token, text⟩] := by
  obtain ⟨text, evs₁, rfl, h₁⟩ := Prog.Ran.of_perform h
  have hnil : evs₁ = [] := by
    cases text with
    | error e => exact h₁.of_ret.1
    | ok b =>
      dsimp only at h₁
      split at h₁
      all_goals exact h₁.of_ret.1
  rw [hnil]
  exact ⟨text, rfl⟩

/-- Loading the handoff sets the defaults, reads two files and may find
the lease held. -/
theorem loadHandoff_ran (h : r.loadHandoff.Ran evs r') :
    r'.cfg = r.cfg ∧ r'.rt.expiresAt = zeroTime ∧ ∃ holder text last,
      evs = [⟨.assign { r.rt with holder := r.cfg.holder, token := 0, held := false }, ()⟩,
        ⟨.assign { holder := r.cfg.holder }, ()⟩, ⟨.readFile .holder, holder⟩,
        ⟨.readFile .token, text⟩] ++ last ∧
      (last = [] ∧ r'.rt = { holder := r.cfg.holder } ∨ last = [⟨.assign r'.rt, ()⟩]) := by
  obtain ⟨evs₁, rfl, h₁⟩ := set_ran h
  obtain ⟨evs₂, rfl, h₂⟩ := set_ran h₁
  obtain ⟨holder, evs₃, rfl, h₃⟩ := Prog.Ran.of_perform h₂
  obtain ⟨evs₄, evs₅, token, rfl, htoken, h₄⟩ := Prog.Ran.of_bind h₃
  obtain ⟨text, rfl⟩ := readToken_ran htoken
  -- a handoff of this holder sets `held`, anything else leaves the defaults
  have hrest : r'.cfg = r.cfg ∧ r'.rt.expiresAt = zeroTime ∧
      (evs₅ = [] ∧ r'.rt = { holder := r.cfg.holder } ∨ evs₅ = [⟨.assign r'.rt, ()⟩]) := by
    cases holder with
    | error e =>
      obtain ⟨rfl, rfl⟩ := h₄.of_ret
      exact ⟨rfl, rfl, .inl ⟨rfl, rfl⟩⟩
    | ok holder =>
      cases token with
      | error e =>
        obtain ⟨rfl, rfl⟩ := h₄.of_ret
        exact ⟨rfl, rfl, .inl ⟨rfl, rfl⟩⟩
      | ok token =>
        dsimp only at h₄
        split at h₄
        · obtain ⟨_, evs₆, rfl, h₅⟩ := Prog.Ran.of_perform h₄
          obtain ⟨rfl, rfl⟩ := h₅.of_ret
          exact ⟨rfl, rfl, .inr rfl⟩
        · obtain ⟨rfl, rfl⟩ := h₄.of_ret
          exact ⟨rfl, rfl, .inl ⟨rfl, rfl⟩⟩
  exact ⟨hrest.1, hrest.2.1, holder, text, evs₅, rfl, hrest.2.2⟩

theorem loadHandoff_shut (h : r.loadHandoff.Ran evs r') : Shut evs := by
  obtain ⟨-, -, holder, text, last, rfl, ⟨rfl, -⟩ | rfl⟩ := loadHandoff_ran h
  · simp [Shut]
  · simp [Shut]

end Berth.Acquire
