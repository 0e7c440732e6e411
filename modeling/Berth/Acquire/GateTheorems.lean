/-
Berth.Acquire.GateTheorems — when the sidecar opens and closes the gate.

A run is made of turns and ends with nothing more than a first Hold that
fails or a shutdown (`run_cases`). Nothing is assumed about what the
sidecar is told except that its clock does not run backwards. `Outcome`
says what the shape of a turn comes to then: the gate was opened on the
word of a request of its own that is still good, the gate was closed, or
nothing was done.
-/
import Berth.Acquire.TurnShapes

namespace Berth.Acquire

open Berth.Interleave Berth.Lease Berth.Api Berth.Client

/-! ## The gate and the marker -/

/-- Whether the health marker may be there after an effect that may have
failed. -/
def marker (present : Bool) : Told → Bool
  | ⟨.writeFileAtomic .healthy _, _⟩ => true
  | ⟨.remove .healthy, .ok ()⟩ => false
  | ⟨.remove .healthy, .error .absent⟩ => false
  | _ => present

/-- Whether the marker may be there, if it may have been there before. -/
def markerAfter (evs : List Told) : Bool := evs.foldl marker true

/-- Hold was called, and neither Release nor WriteAcquired since. -/
def HeldBack (evs : List Told) : Prop :=
  ∃ pre e post, evs = pre ++ e :: post ∧ e.1.holds = true ∧ ∀ x ∈ post, x.1.opens = false

/-- No Hold fails to remove the marker. -/
def Removes (evs : List Told) : Prop :=
  ∀ e, (⟨.remove .healthy, .error (.other e)⟩ : Told) ∉ evs

variable {evs evs' : List Told} {r r' : Renewer}

theorem Calm.shut (h : Calm evs) : Shut evs := fun e he => (h e he).1

theorem HeldBack.append (h : HeldBack evs) (hshut : Shut evs') : HeldBack (evs ++ evs') := by
  obtain ⟨pre, e, post, rfl, he, hpost⟩ := h
  refine ⟨pre, e, post ++ evs', by simp, he, fun x hx => ?_⟩
  rcases List.mem_append.mp hx with hx | hx
  · exact hpost x hx
  · exact hshut x hx

theorem HeldBack.prepend (h : HeldBack evs') : HeldBack (evs ++ evs') := by
  obtain ⟨pre, e, post, rfl, he, hpost⟩ := h
  exact ⟨evs ++ pre, e, post, by simp, he, hpost⟩

theorem Shut.heldBack (h : Shut evs) (hhold : ∃ e ∈ evs, e.1.holds = true) : HeldBack evs := by
  obtain ⟨e, he, hholds⟩ := hhold
  obtain ⟨pre, post, rfl⟩ := List.append_of_mem he
  refine ⟨pre, e, post, rfl, hholds, fun x hx => h x ?_⟩
  exact List.mem_append_right _ (List.mem_cons_of_mem _ hx)

theorem marker_shut {e : Told} (h : e.1.opens = false) : marker false e = false := by
  obtain ⟨o, a⟩ := e
  cases o with
  | writeFileAtomic f data => cases h
  | remove f => cases f <;> rcases a with (_ | _) | _ <;> rfl
  | _ => rfl

theorem foldl_marker_shut (h : Shut evs) : evs.foldl marker false = false := by
  induction evs with
  | nil => rfl
  | cons e evs ih =>
    rw [List.foldl_cons, marker_shut (h e List.mem_cons_self)]
    exact ih fun x hx => h x (List.mem_cons_of_mem _ hx)

/-- A Hold takes the marker away. -/
theorem foldl_marker_hold {b : Bool} (h : Shut evs) (hhold : ∃ e ∈ evs, e.1.holds = true)
    (hrem : Removes evs) : evs.foldl marker b = false := by
  obtain ⟨⟨o, a⟩, he, hholds⟩ := hhold
  obtain ⟨pre, post, rfl⟩ := List.append_of_mem he
  have hpost : Shut post := fun x hx => h x (List.mem_append_right _ (List.mem_cons_of_mem _ hx))
  rw [List.foldl_append, List.foldl_cons]
  have hgone : marker (pre.foldl marker b) ⟨o, a⟩ = false := by
    cases o with
    | remove f =>
      cases f with
      | healthy =>
        rcases a with (_ | e) | _
        · rfl
        · exact absurd he (hrem e)
        · rfl
      | _ => cases hholds
    | _ => cases hholds
  rw [hgone]
  exact foldl_marker_shut hpost

/-- Without calls the marker stays as it is. -/
theorem foldl_marker_calm {b : Bool} (h : Calm evs) :
    evs.foldl marker b = b := by
  induction evs with
  | nil => rfl
  | cons e evs ih =>
    have hsame : marker b e = b := by
      obtain ⟨ho, hh⟩ := h e List.mem_cons_self
      obtain ⟨o, a⟩ := e
      cases o with
      | writeFileAtomic f data => cases ho
      | remove f =>
        cases f with
        | healthy => cases hh
        | _ => rfl
      | _ => rfl
    rw [List.foldl_cons, hsame]
    exact ih fun x hx => h x (List.mem_cons_of_mem _ hx)

/-! ## What a turn comes to -/

/-- The handler's own request, started at `s`, was granted. -/
def Granted (r : Renewer) (s : Time) (evs : List Told) : Prop :=
  ∃ (pre mid : List Told) (endpoint : Endpoint) (id : Nat) (resp : Response) (res : AcquireResult),
    evs = pre ++ ⟨.now, s⟩ ::
      (mid ++ [⟨.post r.cfg.key endpoint, id⟩, ⟨.await id, .ok resp⟩]) ∧
    (∀ e ∈ mid, (reading? e).isSome = true) ∧
    (endpoint = renewEndpoint r.rt.holder r.rt.token r.cfg.ttl ∨
      endpoint = acquireEndpoint r.rt.holder r.cfg.ttl) ∧
    decode resp = .ok res ∧ res.acquired = true

/-- The gate is opened after a check that the handler's own request is
still good, and the new deadline counts from its start. -/
structure Opening (r : Renewer) (evs : List Told) (r' : Renewer) : Prop where
  held : r'.rt.held = true
  checked : ∃ (s check : Time) (evs₁ evs₂ evs₃ : List Told),
    evs = evs₁ ++ evs₂ ++ ⟨.now, check⟩ :: evs₃ ∧ Granted r s evs₁ ∧ Shut (evs₁ ++ evs₂) ∧
    check < s + r.cfg.ttl ∧ InTime r check ∧ r'.rt.expiresAt = s + r.cfg.ttl

/-- What a handler comes to. -/
inductive Outcome (r : Renewer) (evs : List Told) (r' : Renewer) : Prop where
  | opened (h : Opening r evs r') (hlast : Timely r evs)
  | gated (hlost : r'.rt.held = false) (hshut : Shut evs) (hhold : ∃ e ∈ evs, e.1.holds = true)
  | idle (hsame : r'.rt = r.rt) (hcalm : Calm evs) (hlast : Timely r evs)

theorem Grant.granted {s d : Time} (h : Grant r s d evs) : Granted r s evs := by
  obtain ⟨pre, a, b, endpoint, id, resp, res, rfl, hstart, hend, hdec, hacq⟩ := h
  rcases hstart with ⟨rfl, -⟩ | ⟨rfl, -⟩
  · exact ⟨pre, [⟨.now, b⟩], endpoint, id, resp, res, rfl, List.forall_mem_singleton.mpr rfl, hend,
      hdec, hacq⟩
  · exact ⟨pre ++ [⟨.now, a⟩], [], endpoint, id, resp, res, by simp, List.forall_mem_nil _, hend,
      hdec, hacq⟩

theorem readings_opens (h : ∀ e ∈ evs, e.1.opens = true) : readings evs = [] := by
  refine List.filterMap_eq_nil_iff.mpr fun ⟨o, a⟩ he => ?_
  have hopens := h ⟨o, a⟩ he
  cases o with
  | now => cases hopens
  | _ => rfl

/-- The check of a confirmation comes before its last reading, so what is
in time for that is in time for the check. -/
theorem inTime_check {check : Time} {B : List Told} (htimely : Timely r (⟨.now, check⟩ :: B))
    (hclock : (readings (⟨.now, check⟩ :: B)).Pairwise (· ≤ ·)) : InTime r check := by
  have hread : readings ((⟨.now, check⟩ : Told) :: B) = check :: readings B := rfl
  rw [Timely, hread] at htimely
  rw [hread, List.pairwise_cons] at hclock
  cases hB : (readings B).getLast? with
  | none =>
    rw [List.getLast?_cons, hB] at htimely
    exact htimely check rfl
  | some t =>
    rw [List.getLast?_cons, hB] at htimely
    intro hheld hne
    exact Int.lt_of_le_of_lt (hclock.1 t (List.mem_of_getLast? hB)) (htimely t rfl hheld hne)

theorem Shape.outcome (h : Shape r evs r') (hclock : (readings evs).Pairwise (· ≤ ·)) :
    Outcome r evs r' := by
  cases h with
  | quiet same mild still timely =>
    by_cases hhold : ∃ e ∈ evs, e.1.holds = true
    · -- a lease that is held is left alone
      have hlost : r.rt.held = false := by
        refine Bool.eq_false_iff.mpr fun hheld => ?_
        obtain ⟨e, he, hholds⟩ := hhold
        exact absurd ((still hheld e he).2.1.symm.trans hholds) Bool.false_ne_true
      exact .gated (same ▸ hlost) mild.shut hhold
    · refine .idle same (fun e he => ⟨(mild e he).1, ?_⟩) timely
      exact Bool.eq_false_iff.mpr fun hholds => hhold ⟨e, he, hholds⟩
  | lost hlost before after holds =>
    obtain ⟨e, he, hholds⟩ := holds
    refine .gated (by rw [hlost]) ?_ ⟨e, by simp [he], hholds⟩
    exact shut_append.mpr ⟨before.mild.shut, shut_cons.mpr ⟨rfl, after.shut⟩⟩
  | @confirmed A B C s d r' held expires mild still grant checked timely sets assigned opens marks =>
    obtain ⟨check, B', rfl, hcheck⟩ := checked
    have hread : readings (A ++ ⟨.rpcCtxErr d, false⟩ :: (⟨.now, check⟩ :: B' ++ C)) =
        readings A ++ readings (⟨.now, check⟩ :: B') := by
      have hC : readings (⟨.now, check⟩ :: B' ++ C) = readings (⟨.now, check⟩ :: B') := by
        rw [readings_append, readings_opens opens, List.append_nil]
      rw [readings_append, ← hC]
      rfl
    rw [hread] at hclock
    have hin := inTime_check timely (List.pairwise_append.mp hclock).2.1
    refine .opened ⟨held, s, check, A, [⟨.rpcCtxErr d, false⟩], B' ++ C, by simp, grant.granted, ?_,
      hcheck, hin, expires⟩ fun t ht => timely t ?_
    · exact shut_append.mpr ⟨mild.shut, by simp [Shut]⟩
    · rw [hread, List.getLast?_append] at ht
      exact ht

theorem Takes.outcome {handler : Handler} (h : Takes handler r evs r') (hnext : handler ≠ .start)
    (hclock : (readings evs).Pairwise (· ≤ ·)) : r'.cfg = r.cfg ∧ Outcome r evs r' :=
  ⟨(h.shape hnext).1, (h.shape hnext).2.outcome hclock⟩

/-! ## Runs -/

/-- A turn of the run. -/
structure Turn where
  handler : Handler
  before : Renewer
  events : List Told
  after : Renewer

/-- One turn after the other. -/
inductive Turns : Renewer → List Turn → Renewer → Prop where
  | nil (r : Renewer) : Turns r [] r
  | cons {handler : Handler} {r r' r'' : Renewer} {evs : List Told} {ts : List Turn}
      (h : Takes handler r evs r') (hrest : Turns r' ts r'') :
      Turns r (⟨handler, r, evs, r'⟩ :: ts) r''

/-- What was told in the turns. -/
def told (ts : List Turn) : List Told := ts.flatMap Turn.events

theorem told_cons (t : Turn) (ts : List Turn) : told (t :: ts) = t.events ++ told ts := rfl

/-- The handlers in the order of `Run`. -/
def inOrder : List Handler → Bool
  | [] => true
  | [.start] => true
  | .start :: .confirm :: hs => hs.all fun h => h == .expiry || h == .heartbeat
  | _ => false

/-- The turns of a run of the sidecar up to some point between two. -/
def Course (cfg : Config) (ts : List Turn) (r : Renewer) : Prop :=
  Turns (.new cfg) ts r ∧ inOrder (ts.map Turn.handler) = true

/-- A heartbeat or the expiry timer wakes the loop. -/
def wakes : Told → Bool
  | ⟨.select _, Event.tick⟩ => true
  | ⟨.select _, Event.expiry⟩ => true
  | _ => false

/-- What is done without a wake-up, and neither opens nor closes the gate
nor assigns. -/
def Unwoken (evs : List Told) : Prop := Still evs ∧ ∀ e ∈ evs, wakes e = false

theorem unwoken_append : Unwoken (evs ++ evs') ↔ Unwoken evs ∧ Unwoken evs' := by
  simp only [Unwoken, still_append, List.forall_mem_append]
  tauto

theorem shutdown_ran (h : r.shutdown.Ran evs ()) : Unwoken evs := by
  unfold Renewer.shutdown at h
  split at h
  · obtain ⟨evs₁, evs₂, ans, rfl, hcall, hk⟩ := Prog.Ran.of_bind h
    obtain ⟨id, a, rfl, _⟩ := call_ran hcall
    obtain ⟨rfl, _⟩ := hk.of_ret
    simp [Unwoken, wakes]
  · obtain ⟨rfl, _⟩ := h.of_ret
    simp [Unwoken]

/-- What the loop is told until its context is done. -/
theorem unwoken_done {timer timer' : Option Duration} (h : r.expiryTimer.Ran evs timer) :
    Unwoken (evs ++ [⟨.select timer', Event.done⟩]) := by
  rcases expiryTimer_ran h with rfl | ⟨τ, rfl⟩
  · simp [Unwoken, wakes]
  · simp [Unwoken, wakes]

/-- The loop takes turns. -/
theorem loop_turns {n : Nat} {res : Option (Except Err Unit)} (h : (r.loop n).Ran evs res) :
    ∃ ts r' tail, Turns r ts r' ∧ evs = told ts ++ tail ∧ Unwoken tail ∧
      ∀ t ∈ ts, t.handler = .expiry ∨ t.handler = .heartbeat := by
  induction n generalizing r evs with
  | zero =>
    obtain ⟨rfl, _⟩ := Prog.Ran.of_ret h
    exact ⟨[], r, [], .nil r, rfl, by simp [Unwoken], List.forall_mem_nil _⟩
  | succ n ih =>
    obtain ⟨evs₁, evs₂, timer, rfl, htimer, h₁⟩ := Prog.Ran.of_bind h
    obtain ⟨woken, evs₃, rfl, h₂⟩ := Prog.Ran.of_perform h₁
    cases woken with
    | done =>
      obtain ⟨evs₄, evs₅, _, rfl, hshut, hk⟩ := Prog.Ran.of_bind h₂
      obtain ⟨rfl, _⟩ := hk.of_ret
      refine ⟨[], r, evs₁ ++ [⟨.select timer, Event.done⟩] ++ evs₄, .nil r, by simp [told],
        unwoken_append.mpr ⟨unwoken_done htimer, shutdown_ran hshut⟩, List.forall_mem_nil _⟩
    | expiry =>
      obtain ⟨evs₄, evs₅, r₁, rfl, hlose, hk⟩ := Prog.Ran.of_bind h₂
      obtain ⟨ts, r', tail, hts, rfl, htail, hkinds⟩ := ih hk
      refine ⟨_ :: ts, r', tail, .cons (.expiry htimer hlose) hts, ?_, htail, ?_⟩
      · simp [told]
      · exact List.forall_mem_cons.mpr ⟨.inl rfl, hkinds⟩
    | tick =>
      obtain ⟨evs₄, evs₅, r₁, rfl, htakes, hk⟩ : ∃ evs₄ evs₅ r₁, evs₃ = evs₄ ++ evs₅ ∧
          Takes .heartbeat r (evs₁ ++ [⟨.select timer, Event.tick⟩] ++ evs₄) r₁ ∧
          (r₁.loop n).Ran evs₅ res := by
        dsimp only at h₂
        split at h₂
        · next hheld =>
          obtain ⟨evs₄, evs₅, r₁, rfl, htick, hk⟩ := Prog.Ran.of_bind h₂
          exact ⟨evs₄, evs₅, r₁, rfl, .renew htimer hheld htick, hk⟩
        · next hheld =>
          obtain ⟨evs₄, evs₅, r₁, rfl, htick, hk⟩ := Prog.Ran.of_bind h₂
          exact ⟨evs₄, evs₅, r₁, rfl, .reacquire htimer (by simpa using hheld) htick, hk⟩
      obtain ⟨ts, r', tail, hts, rfl, htail, hkinds⟩ := ih hk
      refine ⟨_ :: ts, r', tail, .cons htakes hts, ?_, htail, ?_⟩
      · simp [told]
      · exact List.forall_mem_cons.mpr ⟨.inr rfl, hkinds⟩

/-- A run fails at its first Hold, or takes turns. -/
theorem run_cases {cfg : Config} {n : Nat} {res : Option (Except Err Unit)}
    (h : (Renewer.run n (.new cfg)).Ran evs res) :
    (∃ evs₁ evs₂ r₁ r₂ e e', evs = evs₁ ++ evs₂ ∧ (Renewer.new cfg).loadHandoff.Ran evs₁ r₁ ∧
      r₁.hold.Ran evs₂ (.error e, r₂) ∧ res = some (.error e')) ∨
    ∃ ts r tail, Course cfg ts r ∧ 2 ≤ ts.length ∧ evs = told ts ++ tail ∧ Unwoken tail := by
  obtain ⟨evs₁, evs₂, r₁, rfl, hload, h₁⟩ := Prog.Ran.of_bind h
  obtain ⟨evs₃, evs₄, ⟨err, r₂⟩, rfl, hhold, h₂⟩ := Prog.Ran.of_bind h₁
  cases err with
  | error e =>
    obtain ⟨rfl, rfl⟩ := h₂.of_ret
    rw [List.append_nil]
    exact .inl ⟨evs₁, evs₃, r₁, r₂, e, _, rfl, hload, hhold, rfl⟩
  | ok _ =>
    obtain ⟨evs₅, evs₆, r₃, rfl, hconfirm, hloop⟩ := Prog.Ran.of_bind h₂
    obtain ⟨ts, r', tail, hts, rfl, htail, hkinds⟩ := loop_turns hloop
    refine .inr ⟨_ :: _ :: ts, r', tail,
      ⟨.cons (.start hload hhold) (.cons (.confirm hconfirm) hts), ?_⟩, by simp, ?_, htail⟩
    · simpa [inOrder] using hkinds
    · simp [told]

/-- A first Hold is not woken for. -/
theorem not_wakes_first {r₁ : Renewer} {x : Except Err Unit × Renewer}
    (hload : r.loadHandoff.Ran evs r₁) (hhold : r₁.hold.Ran evs' x) :
    ∀ e ∈ evs ++ evs', wakes e = false := by
  refine List.forall_mem_append.mpr ⟨?_, fun ⟨o, a⟩ he => ?_⟩
  · obtain ⟨-, -, holder, text, last, rfl, ⟨rfl, -⟩ | rfl⟩ := loadHandoff_ran hload
    · simp [wakes]
    · simp [wakes]
  · have hcloses := hold_closes hhold ⟨o, a⟩ he
    cases o with
    | select timer => cases hcloses
    | _ => rfl

theorem Turns.split {ts₁ ts₂ : List Turn} (h : Turns r (ts₁ ++ ts₂) r') :
    ∃ r₁, Turns r ts₁ r₁ ∧ Turns r₁ ts₂ r' := by
  induction ts₁ generalizing r with
  | nil => exact ⟨r, .nil r, h⟩
  | cons t ts₁ ih =>
    cases h with
    | cons ht hrest =>
      obtain ⟨r₁, h₁, h₂⟩ := ih hrest
      exact ⟨r₁, .cons ht h₁, h₂⟩

variable {handler : Handler}

/-- The first Hold. -/
theorem Takes.first (h : Takes .start r evs r') :
    r'.cfg = r.cfg ∧ Shut evs ∧ ∃ e ∈ evs, e.1.holds = true := by
  cases h with
  | start hload hhold =>
    obtain ⟨_, hcfg', hmild, e, he, hholds⟩ := hold_ran hhold
    exact ⟨hcfg'.trans (loadHandoff_ran hload).1,
      shut_append.mpr ⟨loadHandoff_shut hload, hmild.shut⟩, e, List.mem_append_right _ he, hholds⟩

/-- The loss at the deadline. -/
theorem Takes.expired (h : Takes .expiry r evs r') :
    r'.rt.held = false ∧ ∃ e ∈ evs, e.1.holds = true := by
  cases h with
  | expiry htimer hlose =>
    obtain ⟨hrt, -, evs', rfl, -, e, he, hholds⟩ := lose_ran hlose
    exact ⟨by rw [hrt], e, List.mem_append_right _ (List.mem_cons_of_mem _ he), hholds⟩

/-! ## Between the handlers -/

/-- What holds between handlers. -/
structure Guarded (evs : List Told) (r : Renewer) : Prop where
  heldBack : r.rt.held = false → HeldBack evs
  marker : Removes evs → markerAfter evs = true → r.rt.held = true ∧ r.rt.expiresAt ≠ zeroTime

theorem Removes.of_append (h : Removes (evs ++ evs')) : Removes evs ∧ Removes evs' :=
  ⟨fun e he => h e (List.mem_append_left _ he), fun e he => h e (List.mem_append_right _ he)⟩

theorem Guarded.first (h : Takes .start r evs r') : Guarded evs r' := by
  obtain ⟨_, hshut, hhold⟩ := h.first
  refine ⟨fun _ => hshut.heldBack hhold, fun hrem hmark => ?_⟩
  rw [markerAfter, foldl_marker_hold hshut hhold hrem] at hmark
  cases hmark

/-- One turn. -/
theorem Guarded.step (h : Guarded evs r) (ho : Outcome r evs' r')
    (hepoch : ∀ t ∈ readings evs', zeroTime ≤ t) : Guarded (evs ++ evs') r' := by
  cases ho with
  | opened hopen hlast =>
    obtain ⟨hheld, s, check, evs₁, evs₂, evs₃, rfl, _, _, hcheck, _, hexp⟩ := hopen
    refine ⟨fun hlost => absurd (hlost.symm.trans hheld) Bool.false_ne_true,
      fun _ _ => ⟨hheld, ?_⟩⟩
    have hmem : check ∈ readings (evs₁ ++ evs₂ ++ ⟨.now, check⟩ :: evs₃) :=
      List.mem_filterMap.mpr ⟨⟨.now, check⟩, by simp, rfl⟩
    rw [hexp]
    exact (Int.ne_of_lt (Int.lt_of_le_of_lt (hepoch check hmem) hcheck)).symm
  | gated hlost hshut hhold =>
    refine ⟨fun _ => (hshut.heldBack hhold).prepend, fun hrem hmark => ?_⟩
    rw [markerAfter, List.foldl_append, foldl_marker_hold hshut hhold hrem.of_append.2] at hmark
    cases hmark
  | idle hsame hcalm hlast =>
    refine ⟨fun hlost => (h.heldBack (hsame ▸ hlost)).append hcalm.shut, fun hrem hmark => ?_⟩
    rw [markerAfter, List.foldl_append, foldl_marker_calm hcalm] at hmark
    rw [hsame]
    exact h.marker hrem.of_append.1 hmark

/-- Any number of turns. -/
theorem Guarded.turns {ts : List Turn} (h : Guarded evs r) (ht : Turns r ts r')
    (hnext : ∀ t ∈ ts, t.handler ≠ .start)
    (hclock : (readings (told ts)).Pairwise (· ≤ ·))
    (hepoch : ∀ t ∈ readings (told ts), zeroTime ≤ t) : Guarded (evs ++ told ts) r' := by
  induction ht generalizing evs with
  | nil r =>
    rw [told, List.flatMap_nil, List.append_nil]
    exact h
  | @cons handler r r₁ r' evs₁ ts ht hrest ih =>
    rw [told_cons, readings_append] at hclock hepoch
    obtain ⟨hclock₁, hclock₂, _⟩ := List.pairwise_append.mp hclock
    have hstep := h.step (ht.outcome (hnext _ List.mem_cons_self) hclock₁).2
      fun t hmem => hepoch t (List.mem_append_left _ hmem)
    rw [told_cons, ← List.append_assoc]
    exact ih hstep (fun t hmem => hnext t (List.mem_cons_of_mem _ hmem)) hclock₂
      fun t hmem => hepoch t (List.mem_append_right _ hmem)

/-- The handlers of a course after the first are none that start. -/
theorem Course.cases {cfg : Config} {ts : List Turn} (h : Course cfg ts r) (hne : ts ≠ []) :
    ∃ evs r₀ rest, ts = ⟨.start, .new cfg, evs, r₀⟩ :: rest ∧ Takes .start (.new cfg) evs r₀ ∧
      Turns r₀ rest r ∧ ∀ t ∈ rest, t.handler ≠ .start := by
  obtain ⟨hturns, horder⟩ := h
  cases hturns with
  | nil => exact absurd rfl hne
  | @cons handler _ r₀ _ evs rest htakes hrest =>
    cases rest with
    | nil =>
      cases handler with
      | start => exact ⟨evs, r₀, [], rfl, htakes, hrest, List.forall_mem_nil _⟩
      | _ => cases horder
    | cons t rest =>
      obtain ⟨handler', before, events, after⟩ := t
      cases handler with
      | start =>
        refine ⟨evs, r₀, _, rfl, htakes, hrest, List.forall_mem_cons.mpr ?_⟩
        cases handler' with
        | confirm =>
          refine ⟨nofun, fun t ht hstart => ?_⟩
          have hall := List.all_eq_true.mp horder t.handler (List.mem_map_of_mem ht)
          rw [hstart] at hall
          cases hall
        | _ => cases horder
      | _ => cases horder

/-- What is known of one turn. -/
structure Turn.Fair (cfg : Config) (t : Turn) : Prop where
  cfg : t.before.cfg = cfg
  opens : (∃ e ∈ t.events, e.1.opens = true) → Opening t.before t.events t.after
  expires : t.handler = .expiry ∨ t.handler = .heartbeat → t.before.rt.held = true →
    t.before.rt.expiresAt ≠ zeroTime →
    (t.handler = .expiry ∨
      ∃ τ, (readings t.events).getLast? = some τ ∧ t.before.rt.expiresAt ≤ τ) →
    t.after.rt.held = false ∧ ∃ e ∈ t.events, e.1.holds = true

theorem not_opens (h : Shut evs) : ¬ ∃ e ∈ evs, e.1.opens = true := fun ⟨e, he, ho⟩ =>
  absurd ((h e he).symm.trans ho) Bool.false_ne_true

theorem Takes.fair (h : Takes handler r evs r') (hclock : (readings evs).Pairwise (· ≤ ·)) :
    r'.cfg = r.cfg ∧ Turn.Fair r.cfg ⟨handler, r, evs, r'⟩ := by
  by_cases hstart : handler = .start
  · subst hstart
    obtain ⟨hcfg, hshut, _⟩ := h.first
    exact ⟨hcfg, rfl, fun ho => absurd ho (not_opens hshut), fun hkind => by
      rcases hkind with hkind | hkind <;> cases hkind⟩
  · obtain ⟨hcfg, hout⟩ := h.outcome hstart hclock
    -- a last reading in time is no reason to give up, so the handler was no expiry
    have hlate : Timely r evs → (handler = .expiry ∨
        ∃ τ, (readings evs).getLast? = some τ ∧ r.rt.expiresAt ≤ τ) → r.rt.held = true →
        r.rt.expiresAt ≠ zeroTime → r'.rt.held = false ∧ ∃ e ∈ evs, e.1.holds = true := by
      intro htimely hwhy hheld hne
      rcases hwhy with rfl | ⟨τ, hτ, hle⟩
      · exact h.expired
      · exact absurd (htimely τ hτ hheld hne) (Int.not_lt.mpr hle)
    refine ⟨hcfg, rfl, fun ho => ?_, fun _ hheld hne hwhy => ?_⟩
    · cases hout with
      | opened hopen _ => exact hopen
      | gated _ hshut _ => exact absurd ho (not_opens hshut)
      | idle _ hcalm _ => exact absurd ho (not_opens hcalm.shut)
    · cases hout with
      | opened _ hlast => exact hlate hlast hwhy hheld hne
      | gated hlost _ hhold => exact ⟨hlost, hhold⟩
      | idle _ _ hlast => exact hlate hlast hwhy hheld hne

theorem Turns.fair {ts : List Turn} (h : Turns r ts r')
    (hclock : (readings (told ts)).Pairwise (· ≤ ·)) : ∀ t ∈ ts, t.Fair r.cfg := by
  induction h with
  | nil r => exact List.forall_mem_nil _
  | @cons handler r r₁ r' evs₁ ts ht hrest ih =>
    rw [told_cons, readings_append] at hclock
    obtain ⟨hclock₁, hclock₂, _⟩ := List.pairwise_append.mp hclock
    obtain ⟨hcfg, hfair⟩ := ht.fair hclock₁
    rw [hcfg] at ih
    exact List.forall_mem_cons.mpr ⟨hfair, ih hclock₂⟩

/-- The sidecar's gate. Whatever the sidecar is told, as long as its clock
does not run backwards: its run is made of turns. What is left at its end
is the first Hold, if that failed, or a shutdown: no wake-up, and nothing
that opens the gate. Every turn opens it only on the word of its own
request and gives up when its last reading is past the deadline, and
between any two turns, if the lease is not held then the gate was held
back last, and the marker is there only while the lease is held under a
deadline. -/
theorem sidecar_gate {cfg : Config} {n : Nat} {res : Option (Except Err Unit)}
    (h : (Renewer.run n (.new cfg)).Ran evs res) (hclock : (readings evs).Pairwise (· ≤ ·))
    (hepoch : ∀ t ∈ readings evs, zeroTime ≤ t) :
    ∃ ts r tail, Course cfg ts r ∧ evs = told ts ++ tail ∧ Shut tail ∧
      (∀ e ∈ tail, wakes e = false) ∧
      (ts = [] ∧ (∃ e, res = some (.error e)) ∨ 2 ≤ ts.length ∧ Still tail) ∧
      (∀ t ∈ ts, t.Fair cfg) ∧
      ∀ ts₁ ts₂, ts = ts₁ ++ ts₂ → ts₁ ≠ [] →
        ∃ r₁, Turns (.new cfg) ts₁ r₁ ∧ Turns r₁ ts₂ r ∧ Guarded (told ts₁) r₁ := by
  obtain ⟨ts, r, tail, hcourse, rfl, hshut, hwakes, hend⟩ : ∃ ts r tail, Course cfg ts r ∧
      evs = told ts ++ tail ∧ Shut tail ∧ (∀ e ∈ tail, wakes e = false) ∧
      (ts = [] ∧ (∃ e, res = some (.error e)) ∨ 2 ≤ ts.length ∧ Still tail) := by
    rcases run_cases h with ⟨evs₁, evs₂, r₁, r₂, e, e', rfl, hload, hhold, rfl⟩ |
      ⟨ts, r, tail, hc, hlen, rfl, hidle⟩
    · refine ⟨[], .new cfg, _, ⟨.nil _, rfl⟩, rfl, ?_, not_wakes_first hload hhold,
        .inl ⟨rfl, e', rfl⟩⟩
      exact shut_append.mpr ⟨loadHandoff_shut hload, (hold_ran hhold).2.2.1.shut⟩
    · exact ⟨ts, r, tail, hc, rfl, hidle.1.mild.shut, hidle.2, .inr ⟨hlen, hidle.1⟩⟩
  rw [readings_append] at hclock hepoch
  have hclock₁ := (List.pairwise_append.mp hclock).1
  have hepoch₁ : ∀ t ∈ readings (told ts), zeroTime ≤ t := fun t ht =>
    hepoch t (List.mem_append_left _ ht)
  refine ⟨ts, r, tail, hcourse, rfl, hshut, hwakes, hend, hcourse.1.fair hclock₁, ?_⟩
  rintro ts₁ ts₂ rfl hne
  obtain ⟨evs₀, r₀, rest, heq, hstart, hrest, hnext⟩ := hcourse.cases (by simp [hne])
  cases ts₁ with
  | nil => exact absurd rfl hne
  | cons t ts₁ =>
    obtain ⟨rfl, rfl⟩ := List.cons.inj heq
    obtain ⟨r₁, h₁, h₂⟩ := hrest.split
    have htold : told (⟨.start, .new cfg, evs₀, r₀⟩ :: ts₁ ++ ts₂) =
        evs₀ ++ (told ts₁ ++ told ts₂) := by simp [told]
    rw [htold, readings_append, readings_append] at hclock₁ hepoch₁
    refine ⟨r₁, .cons hstart h₁, h₂, (Guarded.first hstart).turns h₁
      (fun t ht => hnext t (List.mem_append_left _ ht))
      (List.pairwise_append.mp (List.pairwise_append.mp hclock₁).2.1).1 fun t ht => ?_⟩
    exact hepoch₁ t (List.mem_append_right _ (List.mem_append_left _ ht))

/-- A Pod's sidecar with probes. -/
def probed : Config :=
  { leaseName := "nightly", leaseNamespace := "jobs", holderIdentity := "east"
    ttl := 10 * second, heartbeatInterval := 3 * second }

/-- A handoff is found and confirmed, and then the sidecar is stopped. -/
def confirmedRun : List Told :=
  [⟨.assign { holder := "east" }, ()⟩, ⟨.assign { holder := "east" }, ()⟩,
   ⟨.readFile .holder, .ok "east"⟩, ⟨.readFile .token, .ok "1"⟩,
   ⟨.assign { holder := "east", token := 1, held := true }, ()⟩,
   ⟨.remove .healthy, .ok ()⟩,
   ⟨.ctxErr, false⟩, ⟨.now, (0 : Time)⟩, ⟨.now, (0 : Time)⟩,
   ⟨.post probed.key (renewEndpoint "east" 1 probed.ttl), (0 : Nat)⟩,
   ⟨.await 0, .ok ⟨200, .lease { acquired := true, holder := "east", fencingToken := 1 }⟩⟩,
   ⟨.rpcCtxErr probed.heartbeatInterval, false⟩, ⟨.now, second⟩,
   ⟨.assign { holder := "east", token := 1, held := true }, ()⟩,
   ⟨.assign { holder := "east", token := 1, held := true, expiresAt := probed.ttl }, ()⟩,
   ⟨.mkdirAll, .ok ()⟩, ⟨.writeFileAtomic .healthy "ok\n", .ok ()⟩,
   ⟨.now, second⟩, ⟨.select (some (9 * second)), Event.done⟩]

theorem sidecar_gate_confirmed :
    (Renewer.run 1 (.new probed)).Ran confirmedRun (some (.ok ())) ∧
      ∃ ts r, Course probed ts r ∧ 2 ≤ ts.length ∧ ∀ t ∈ ts, t.Fair probed := by
  have hran : (Renewer.run 1 (.new probed)).Ran confirmedRun (some (.ok ())) :=
    Prog.ran_of_feed (by decide)
  obtain ⟨ts, r, _, hcourse, _, _, _, hend, hfair, _⟩ :=
    sidecar_gate hran (by decide) (by decide)
  rcases hend with ⟨_, e, he⟩ | ⟨hlen, _⟩
  · cases he
  · exact ⟨hran, ts, r, hcourse, hlen, hfair⟩

end Berth.Acquire
