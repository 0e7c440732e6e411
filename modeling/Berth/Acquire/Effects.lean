/-
Berth.Acquire.Effects — which effects the parts of the helper use.

Hold only closes the gate. The rest of the enforcer, the state directory
and the clock are plain: they neither reach the server nor change the
runtime state, and they use the files as a Pod with its holder should
(`Used`). The handlers do both, and the holder stays what it is (`Stays`).
-/
import Berth.Acquire.Renewer

namespace Berth.Acquire

open Berth.Interleave Berth.Lease

/-! ## Effects -/

/-- What the state files say in a Pod with this holder. -/
def StateFile.Says (holder : String) : StateFile → String → Prop
  | .holder, text => text = holder
  | .token, text => ∃ token, text = formatInt token
  | .healthy, text => text = "ok\n"

/-- The effects of Hold. -/
@[simp] def HelperOp.closes : HelperOp → Bool
  | .remove .healthy | .findProcesses | .now | .kill _ _ => true
  | _ => false

def HelperOp.Closes (o : HelperOp) : Prop := o.closes = true

/-- Effects that touch neither the server nor the runtime state. -/
def HelperOp.quiet : HelperOp → Bool
  | .post _ _ => false
  | .assign _ => false
  | _ => true

/-- The marker is never read, nothing else is removed, and what is written
says what it should in a Pod with this holder. -/
def HelperOp.Used (holder : String) : HelperOp → Prop
  | .readFile f => f ≠ .healthy
  | .remove f => f = .healthy
  | .writeFileAtomic f data => f.Says holder data
  | _ => True

/-- Neither the server nor the runtime state is touched, and the files are
used well. -/
def HelperOp.Plain (holder : String) (o : HelperOp) : Prop := o.quiet = true ∧ o.Used holder

/-! ## Hold -/

theorem only_signal (pid : Nat) (sig : Signal) (what : String) (failures : Except Err Unit) :
    (SignalEnforcer.signal pid sig what failures).Only HelperOp.Closes := by
  refine ⟨rfl, fun r => ?_⟩
  rcases r with (_ | _) | _ <;> trivial

theorem only_holdLoop (now : Time) (pids : List Nat) (s : SignalEnforcer)
    (failures : Except Err Unit) :
    (SignalEnforcer.holdLoop now pids s failures).Only HelperOp.Closes := by
  induction pids generalizing s failures with
  | nil => trivial
  | cons pid pids ih =>
    unfold SignalEnforcer.holdLoop
    split
    · exact (only_signal _ _ _ _).bind fun _ => ih _ _
    · split
      · exact (only_signal _ _ _ _).bind fun _ => ih _ _
      · exact ih _ _

theorem only_markUnhealthy : State.markUnhealthy.Only HelperOp.Closes := by
  refine ⟨rfl, fun r => ?_⟩
  rcases r with (_ | _) | _ <;> trivial

theorem only_hold (e : Enforcer) : e.hold.Only HelperOp.Closes := by
  cases e with
  | probe => exact only_markUnhealthy.bind fun _ => trivial
  | signal s =>
    refine Prog.Only.bind (only_markUnhealthy.bind fun failures => ⟨rfl, fun found => ?_⟩)
      fun _ => trivial
    cases found with
    | error e => trivial
    | ok pids => exact ⟨rfl, fun now => only_holdLoop now pids s failures⟩

/-! ## Plain parts -/

section Plain

variable {holder : String} {r : Renewer} {α β : Type}

abbrev Plain (holder : String) (p : Prog HelperSig α) : Prop :=
  p.Only (S := HelperSig) (HelperOp.Plain holder)

theorem HelperOp.Closes.plain {o : HelperOp} (h : o.Closes) : o.Plain holder := by
  cases o with
  | remove f =>
    cases f with
    | healthy => exact ⟨rfl, rfl⟩
    | _ => cases h
  | findProcesses => exact ⟨rfl, trivial⟩
  | now => exact ⟨rfl, trivial⟩
  | kill pid sig => exact ⟨rfl, trivial⟩
  | _ => cases h

theorem plain_enforcerHold (e : Enforcer) : Plain holder e.hold :=
  (only_hold e).mono fun _ h => h.plain

theorem plain_markHealthy : Plain holder State.markHealthy := by
  refine ⟨⟨rfl, trivial⟩, fun r => ?_⟩
  rcases r with _ | _
  · trivial
  · exact ⟨⟨rfl, rfl⟩, fun r => by rcases r with _ | _ <;> trivial⟩

theorem plain_writeAcquired {name : String} (h : name = holder) (token : Int) :
    Plain holder (State.writeAcquired name token) := by
  refine ⟨⟨rfl, trivial⟩, fun r => ?_⟩
  rcases r with _ | _
  · trivial
  refine ⟨⟨rfl, h⟩, fun r => ?_⟩
  rcases r with _ | _
  · trivial
  refine ⟨⟨rfl, token, rfl⟩, fun r => ?_⟩
  rcases r with _ | _
  · trivial
  · exact plain_markHealthy

theorem plain_readHolder : Plain holder State.readHolder := ⟨⟨rfl, nofun⟩, fun _ => trivial⟩

theorem plain_readToken : Plain holder State.readToken := by
  refine Prog.Only.perform ⟨rfl, nofun⟩ fun r => ?_
  split
  · trivial
  · split <;> trivial

theorem plain_enforcerRelease (e : Enforcer) : Plain holder e.release := by
  cases e with
  | probe => exact plain_markHealthy.bind fun _ => trivial
  | signal s => exact Prog.Only.bind (plain_markHealthy.bind fun _ => trivial) fun _ => trivial

theorem plain_tickCtx (r : Renewer) : Plain holder r.tickCtx := by
  refine ⟨⟨rfl, trivial⟩, fun now => ?_⟩
  change Prog.Only _ (if _ then _ else _)
  split <;> trivial

theorem plain_renewedTooLate (r : Renewer) (deadline started : Time) :
    Plain holder (r.renewedTooLate deadline started) := by
  refine ⟨⟨rfl, trivial⟩, fun (late : Bool) => ?_⟩
  change Prog.Only _ (if _ then _ else _)
  split
  · trivial
  refine ⟨⟨rfl, trivial⟩, fun now => ?_⟩
  change Prog.Only _ (if _ then _ else _)
  split
  · trivial
  split
  · exact ⟨⟨rfl, trivial⟩, fun _ => trivial⟩
  · trivial

theorem plain_acquiredTooLate (r : Renewer) (deadline started : Time) :
    Plain holder (r.acquiredTooLate deadline started) := by
  refine ⟨⟨rfl, trivial⟩, fun (late : Bool) => ?_⟩
  change Prog.Only _ (if _ then _ else _)
  split
  · trivial
  · exact ⟨⟨rfl, trivial⟩, fun _ => trivial⟩

theorem plain_expiryTimer (r : Renewer) : Plain holder r.expiryTimer := by
  unfold Renewer.expiryTimer
  split
  · exact ⟨⟨rfl, trivial⟩, fun _ => trivial⟩
  · trivial

theorem plain_handOff (cfg : Config) (res : AcquireResult) : Plain cfg.holder (handOff cfg res) := by
  refine (plain_writeAcquired rfl _).bind fun r => ?_
  rcases r with _ | _
  · trivial
  · exact ⟨⟨rfl, trivial⟩, fun r => by rcases r with _ | _ <;> trivial⟩

/-! ## The handlers -/

abbrev Uses (holder : String) (p : Prog HelperSig α) : Prop :=
  p.Only (S := HelperSig) (HelperOp.Used holder)

theorem Plain.uses {p : Prog HelperSig α} (h : Plain holder p) : Uses holder p :=
  Prog.Only.mono h fun _ h => h.2

theorem Plain.ends {p : Prog HelperSig α} {k : α → Prog HelperSig β} {Q : β → Prop}
    (h : Plain holder p) (hk : ∀ a, (k a).Ends (HelperOp.Used holder) Q) :
    (p.bind k).Ends (HelperOp.Used holder) Q := Prog.Only.ends h.uses hk

/-- The renewer of a Pod with this holder. -/
def Renewer.For (holder : String) (r : Renewer) : Prop :=
  r.cfg.holder = holder ∧ r.rt.holder = holder

/-- The holder stays what it is. -/
abbrev Stays (holder : String) (p : Prog HelperSig Renewer) : Prop :=
  p.Ends (S := HelperSig) (HelperOp.Used holder) (Renewer.For holder)

theorem uses_finish (id : Nat) (dec : Api.Response → Except Err α) :
    Uses holder (LeaseClient.finish id dec) :=
  ⟨trivial, fun r => by rcases r with _ | _ <;> trivial⟩

theorem stays_set {rt : Runtime} (hr : r.For holder) (hrt : rt.holder = holder) :
    Stays holder (r.set rt) := ⟨trivial, fun _ => ⟨hr.1, hrt⟩⟩

theorem ends_hold (hr : r.For holder) :
    r.hold.Ends (HelperOp.Used holder) (fun x => x.2.For holder) :=
  (plain_enforcerHold r.enforcer).ends fun _ => hr

theorem stays_ungate (hr : r.For holder) : Stays holder r.ungate :=
  (plain_enforcerRelease r.enforcer).ends fun _ => hr

theorem stays_lose (hr : r.For holder) : Stays holder r.lose :=
  (stays_set hr (by exact hr.2)).bind fun _ hr => (ends_hold hr).bind fun x hr =>
    show x.2.For holder from hr

theorem stays_loadHandoff (hcfg : r.cfg.holder = holder) : Stays holder r.loadHandoff := by
  refine Prog.Ends.bind (Q := Renewer.For holder) ⟨trivial, fun _ => ⟨hcfg, hcfg⟩⟩ fun r hr => ?_
  refine (stays_set hr (by exact hr.2)).bind fun r hr => ?_
  refine plain_readHolder.ends fun found => plain_readToken.ends fun token => ?_
  rcases found with _ | found
  · exact hr
  rcases token with _ | token
  · exact hr
  change Prog.Ends _ _ (if _ then _ else _)
  split
  · next h => exact stays_set hr (h.1.trans hr.2)
  · exact hr

theorem stays_renewed (hr : r.For holder) (deadline started : Time)
    (ans : Except Err AcquireResult) : Stays holder (r.renewed deadline started ans) := by
  cases ans with
  | error e =>
    unfold Renewer.renewed
    simp only
    split
    · exact stays_lose hr
    refine ⟨trivial, fun now => ?_⟩
    change Prog.Ends _ _ (if _ then _ else _)
    split
    · exact stays_lose hr
    · exact hr
  | ok res =>
    unfold Renewer.renewed
    simp only
    split
    · exact stays_lose hr
    refine (plain_renewedTooLate r deadline started).ends fun late => ?_
    split
    · exact stays_lose hr
    · refine (stays_set hr (by exact hr.2)).bind fun r hr => ?_
      refine (stays_set hr (by exact hr.2)).bind fun r hr => ?_
      exact stays_ungate hr

theorem stays_tickHeld (hr : r.For holder) : Stays holder r.tickHeld := by
  refine ⟨trivial, fun (started : Time) => ?_⟩
  change Prog.Ends _ _ (if _ then _ else _)
  split
  · exact stays_lose hr
  refine (plain_tickCtx r).ends fun deadline => ?_
  refine Prog.Only.ends ⟨trivial, fun id => uses_finish id _⟩ fun ans => ?_
  exact stays_renewed hr deadline started ans

theorem stays_reacquired (hr : r.For holder) (deadline started : Time)
    (ans : Except Err AcquireResult) : Stays holder (r.reacquired deadline started ans) := by
  cases ans with
  | error e => exact hr
  | ok res =>
    unfold Renewer.reacquired
    simp only
    split
    · exact hr
    refine (plain_acquiredTooLate r deadline started).ends fun late => ?_
    split
    · exact hr
    refine (stays_set hr (by exact hr.2)).bind fun r hr => ?_
    refine (stays_set hr (by exact hr.2)).bind fun r hr => ?_
    refine (stays_set hr (by exact hr.2)).bind fun r hr => ?_
    exact (plain_writeAcquired hr.2 _).ends fun _ => stays_ungate hr

theorem stays_tickReacquire (hr : r.For holder) : Stays holder r.tickReacquire := by
  refine (ends_hold hr).bind fun x hr => (plain_tickCtx x.2).ends fun deadline => ?_
  refine ⟨trivial, fun (started : Time) => ?_⟩
  change Prog.Ends _ _ (Prog.bind (LeaseClient.acquire _ _ _) _)
  exact Prog.Only.ends ⟨trivial, fun id => uses_finish id _⟩ fun ans =>
    stays_reacquired hr deadline started ans

theorem uses_shutdown (r : Renewer) : Uses holder r.shutdown := by
  unfold Renewer.shutdown
  split
  · exact Prog.Only.bind ⟨trivial, fun id => uses_finish id _⟩ fun _ => trivial
  · trivial

theorem ends_loop (n : Nat) (hr : r.For holder) :
    (Renewer.loop n r).Ends (HelperOp.Used holder) fun _ => True := by
  induction n generalizing r with
  | zero => trivial
  | succ n ih =>
    refine (plain_expiryTimer r).ends fun timer => ⟨trivial, fun ev => ?_⟩
    cases ev with
    | done => exact (uses_shutdown r).ends fun _ => trivial
    | expiry => exact (stays_lose hr).bind fun _ => ih
    | tick =>
      change Prog.Ends _ _ (if r.rt.held then _ else _)
      split
      · exact (stays_tickHeld hr).bind fun _ => ih
      · exact (stays_tickReacquire hr).bind fun _ => ih

theorem ends_run (n : Nat) (hcfg : r.cfg.holder = holder) :
    (r.run n).Ends (HelperOp.Used holder) fun _ => True := by
  refine (stays_loadHandoff hcfg).bind fun r hr => (ends_hold hr).bind fun x hr => ?_
  rcases x with ⟨_ | _, r⟩
  · trivial
  refine Prog.Ends.bind (Q := Renewer.For holder) ?_ fun _ => ends_loop n
  unfold Renewer.confirm
  split
  · refine ⟨trivial, fun (expired : Bool) => ?_⟩
    change Prog.Ends _ _ (if _ then _ else _)
    split
    · exact hr
    · exact stays_tickHeld hr
  · exact hr

theorem uses_pause (cfg : Config) {retry : Prog HelperSig (Option (Except Err AcquireResult))}
    (h : Uses holder retry) : Uses holder (pause cfg retry) := by
  refine ⟨trivial, fun (b : Bool) => ?_⟩
  change Prog.Only _ (if _ then _ else _)
  split
  · exact h
  · trivial

theorem uses_hold (cfg : Config) (n : Nat) : Uses cfg.holder (hold cfg n) := by
  induction n with
  | zero => trivial
  | succ n ih =>
    refine Prog.Only.bind ⟨trivial, fun id => uses_finish id _⟩ fun ans => ?_
    rcases ans with _ | res
    · exact uses_pause cfg ih
    change Prog.Only _ (if _ then _ else _)
    split
    · exact (plain_handOff cfg res).uses
    · exact uses_pause cfg ih

end Plain

end Berth.Acquire
