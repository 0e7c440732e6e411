/-
Berth.Operator.WakeTheorems — when a reconcile pass comes back.

A pass that leaves its lease active ends in one of two places: a renewal,
which has persisted a new deadline, or a failed Acquire before the old one.
Both compute the delay from a reading of the clock that is later than the
one their branch was taken on. The delay is positive and ends by the deadline
exactly when that reading is before the deadline (`active_wakes_iff`), and
the API calls in between decide that.

The API server's answers are those of a server that stores what it is given
(`Truthful`). Every lease write of a pass that returns no error has
succeeded, so what is persisted at its end is the last answer (`persisted`).
-/
import Berth.Operator.ActiveTheorems

namespace Berth.Operator

open Berth.Interleave Berth.Lease Berth.Api Berth.Client

/-! ## Events -/

/-- The API server stores the status it is given, with times cut to seconds,
and does not touch the spec. -/
def Truthful : Event ClusterSig → Prop
  | ⟨.getLease _, .ok l⟩ => l.status.stored = l.status
  | ⟨.updateStatus m, .ok l⟩ => l.spec = m.spec ∧ l.status = m.status.stored
  | _ => True

/-- The persisted lease after one more event. An `Update` does not write
the status. -/
def persistedAfter (l : BerthLease) : Event ClusterSig → BerthLease
  | ⟨.updateStatus _, .ok l'⟩ => l'
  | ⟨.updateLease _, .ok l'⟩ => { l' with status := l.status }
  | _ => l

/-- The lease as a pass leaves it: what it has read, or the last answer to a
write. -/
def persisted (l : BerthLease) (evs : List (Event ClusterSig)) : BerthLease :=
  evs.foldl persistedAfter l

def clockReading? : Event ClusterSig → Option Time
  | ⟨.now, t⟩ => some t
  | _ => none

/-- The readings of the clock, in order. -/
def clockReadings (evs : List (Event ClusterSig)) : List Time := evs.filterMap clockReading?

/-- What the first wait for the central server has brought. In a pass that
does not stop its workload this is the answer to the Acquire. -/
def acquireAnswer (evs : List (Event ClusterSig)) : Option (Except Err AcquireResult) :=
  evs.findSome? fun
    | ⟨.await _ _, .error e⟩ => some (.error e)
    | ⟨.await _ _, .ok resp⟩ => some (decode resp)
    | _ => none

/-- The persisted phase is active, with this deadline. -/
def ActiveWith (l : BerthLease) (d : Option Time) : Prop :=
  ∃ w, l.status.workload = some w ∧ w.phase = .active ∧ w.deadline = d

variable {evs evs' : List (Event ClusterSig)} {l m : BerthLease} {d : Option Time} {D : Time}
variable {res : Result}

@[simp] theorem persisted_cons (e : Event ClusterSig) :
    persisted l (e :: evs) = persisted (persistedAfter l e) evs := rfl

@[simp] theorem persisted_append : persisted l (evs ++ evs') = persisted (persisted l evs) evs' :=
  List.foldl_append

@[simp] theorem clockReadings_append :
    clockReadings (evs ++ evs') = clockReadings evs ++ clockReadings evs' := List.filterMap_append

/-- The record at the end depends on the record at the start only. -/
theorem persisted_workload (h : l.status.workload = m.status.workload) :
    (persisted l evs).status.workload = (persisted m evs).status.workload := by
  induction evs generalizing l m with
  | nil => exact h
  | cons e evs ih =>
    refine ih ?_
    obtain ⟨o, r⟩ := e
    cases o with
    | updateStatus m' => cases r <;> first | exact h | rfl
    | updateLease m' => cases r <;> exact h
    | _ => exact h

/-- Gentle effects write no lease. -/
theorem persisted_gentle (h : ∀ e ∈ evs, e.1.gentle = true) : persisted l evs = l := by
  induction evs with
  | nil => rfl
  | cons e evs ih =>
    rw [List.forall_mem_cons] at h
    have hkeep : persistedAfter l e = l := by
      obtain ⟨o, r⟩ := e
      cases o <;> first | rfl | exact absurd h.1 Bool.false_ne_true
    rw [persisted_cons, hkeep, ih h.2]

theorem Gentle.persisted {α : Type} {p : Prog ClusterSig α} {a : α} (hp : Gentle p)
    (h : p.Ran evs a) : persisted l evs = l := persisted_gentle (Prog.Only.ran hp h)

/-! ## Stopping -/

/-- A status write of the effect leaves the lease inactive. -/
def ClusterOp.Stops : ClusterOp → Prop
  | .updateStatus m => m.phase ≠ .active
  | _ => True

theorem Gentle.stops {α : Type} {p : Prog ClusterSig α} (hp : Gentle p) :
    p.Only ClusterOp.Stops := by
  refine hp.mono ?_
  intro o ho
  cases o with
  | updateStatus m => cases ho
  | _ => trivial

theorem phase_stored (h : l.status = m.status.stored) : l.phase = m.phase := by
  simp only [BerthLease.phase, h, BerthLeaseStatus.stored, Option.map_map]
  rfl

theorem persisted_stops (hl : l.phase ≠ .active) (hevs : ∀ e ∈ evs, e.1.Stops)
    (ht : ∀ e ∈ evs, Truthful e) : (persisted l evs).phase ≠ .active := by
  induction evs generalizing l with
  | nil => exact hl
  | cons e evs ih =>
    rw [List.forall_mem_cons] at hevs ht
    refine ih ?_ hevs.2 ht.2
    obtain ⟨o, r⟩ := e
    cases o with
    | updateStatus m =>
      cases r with
      | error e => exact hl
      | ok l' =>
        have heq : l'.phase = m.phase := phase_stored ht.1.2
        intro hact
        exact hevs.1 (heq.symm.trans hact)
    | updateLease m =>
      cases r with
      | error e => exact hl
      | ok l' => exact hl
    | _ => exact hl

namespace Reconciler

theorem finishStop_stops (l : BerthLease) : (finishStop l).Only ClusterOp.Stops := by
  unfold finishStop
  split
  · exact ⟨trivial, fun _ => trivial⟩
  · refine ⟨?_, fun _ => trivial⟩
    rw [ClusterOp.Stops, cleared_phase]
    decide

theorem releaseAndFinish_stops (l : BerthLease) : (releaseAndFinish l).Only ClusterOp.Stops := by
  unfold releaseAndFinish
  dsimp only
  split
  · refine Prog.Only.bind (p := LeaseClient.release l _ _ _ _) ?_ ?_
    · refine ⟨trivial, fun id => ⟨trivial, fun (r : Except Err Response) => ?_⟩⟩
      cases r <;> trivial
    · intro r
      cases r with
      | ok u => exact finishStop_stops l
      | error e =>
        dsimp only
        split
        · exact finishStop_stops l
        · trivial
  · exact finishStop_stops l

theorem gentle_drainPods (l : BerthLease) : Gentle (drainPods l) := by
  refine gentle_effect (o := .listObjects _ _ _ _) rfl fun (r : Except ApiErr (List Object)) => ?_
  cases r with
  | error e => exact gentle_pure _
  | ok pods => exact gentle_drainPodsLoop l pods true

theorem drainAndRelease_stops (l : BerthLease) : (drainAndRelease l).Only ClusterOp.Stops := by
  refine Prog.Only.bind (gentle_stopTarget l).stops fun r => ?_
  cases r with
  | some e => trivial
  | none =>
    refine Prog.Only.bind (gentle_drainJobs l).stops fun r => ?_
    cases r with
    | error e => trivial
    | ok jobsDone =>
      refine Prog.Only.bind (gentle_drainPods l).stops fun r => ?_
      cases r with
      | error e => trivial
      | ok done =>
        dsimp only
        split
        · exact releaseAndFinish_stops l
        · trivial

/-- A pass that stops its workload and returns no error leaves it
inactive. -/
theorem stopAndRelease_stops (htarget : l.spec.target ≠ none)
    (h : (stopAndRelease l).Ran evs res) (herr : res.err = none) (ht : ∀ e ∈ evs, Truthful e) :
    (persisted l evs).phase ≠ .active := by
  unfold stopAndRelease at h
  rw [if_neg (by simpa using htarget)] at h
  split at h
  · next hstop =>
    refine persisted_stops ?_ (Prog.Only.ran (drainAndRelease_stops l) h) ht
    rw [hstop]
    decide
  · obtain ⟨r, evs₁, rfl, h₁⟩ := Prog.Ran.of_perform h
    rw [List.forall_mem_cons] at ht
    cases r with
    | error e =>
      obtain ⟨-, rfl⟩ := h₁.of_ret
      cases herr
    | ok l' =>
      have hphase : l'.phase = .stopping := phase_stored ht.1.2
      rw [persisted_cons]
      refine persisted_stops ?_ (Prog.Only.ran (drainAndRelease_stops l') h₁) ht.2
      rw [persistedAfter, hphase]
      decide

end Reconciler

/-! ## Permits -/

/-- A stored record keeps a deadline of whole seconds. -/
theorem ActiveWith.stored (h : ActiveWith m d) (hd : d.map truncSecond = d)
    (hl : l.status = m.status.stored) : ActiveWith l d := by
  obtain ⟨w, hw, hphase, rfl⟩ := h
  exact ⟨{ w with deadline := w.deadline.map truncSecond },
    by rw [hl, BerthLeaseStatus.stored, hw]; rfl, hphase, hd⟩

theorem gentle_expectedBinding (o : Object) : Gentle (expectedBinding o) :=
  gentle_resolveBinding 5 o

theorem ungatePod_copy {p : Object} {l' : BerthLease} (h : (ungatePod l p).Ran evs (.ok l')) :
    l' = l := by
  unfold ungatePod at h
  split at h
  · exact (Except.ok.inj h.of_ret.2).symm
  obtain ⟨evs₁, evs₂, r, rfl, -, h₁⟩ := Prog.Ran.of_bind h
  cases r with
  | error e => cases h₁.of_ret.2
  | ok u => exact (Except.ok.inj h₁.of_ret.2).symm

/-- Registering a Pod leaves the activation as it is, and the copy in memory
is what is stored. -/
theorem registerPod_kept {w : WorkloadStatus} {p : Object} {l' : BerthLease}
    (h : (registerPod l w p).Ran evs (.ok l')) (ht : ∀ e ∈ evs, Truthful e)
    (hw : l.status.workload = some w) (ha : ActiveWith l d) (hd : d.map truncSecond = d) :
    persisted l evs = l' ∧ ActiveWith l' d := by
  unfold registerPod at h
  split at h
  · rw [(gentle_ungatePod l p).persisted h, ungatePod_copy h]
    exact ⟨rfl, ha⟩
  split at h
  · cases h.of_ret.2
  split at h
  · cases h.of_ret.2
  obtain ⟨r, evs₁, rfl, h₁⟩ := Prog.Ran.of_perform h
  rw [List.forall_mem_cons] at ht
  cases r with
  | error e => cases h₁.of_ret.2
  | ok l₁ =>
    have hact : ActiveWith l₁ d := by
      refine ActiveWith.stored (m := l.withWorkload _) ?_ hd ht.1.2
      obtain ⟨w', hw', hphase, hdead⟩ := ha
      cases hw.symm.trans hw'
      exact ⟨_, rfl, hphase, hdead⟩
    rw [persisted_cons, ungatePod_copy h₁]
    exact ⟨(gentle_ungatePod l₁ p).persisted h₁, hact⟩

theorem permitPod_kept {p : Object} {l' : BerthLease} (h : (permitPod l p).Ran evs (.ok l'))
    (ht : ∀ e ∈ evs, Truthful e) (ha : ActiveWith l d) (hd : d.map truncSecond = d) :
    persisted l evs = l' ∧ ActiveWith l' d := by
  obtain ⟨t, evs₁, rfl, h₁⟩ := Prog.Ran.of_perform h
  rw [List.forall_mem_cons] at ht
  rw [persisted_cons]
  split at h₁
  · next w hact hw =>
    split at h₁
    · obtain ⟨rfl, heq⟩ := h₁.of_ret
      cases heq
      exact ⟨rfl, ha⟩
    · split at h₁
      · cases h₁.of_ret.2
      · obtain ⟨evs₂, evs₃, r, rfl, hbind, h₂⟩ := Prog.Ran.of_bind h₁
        cases r with
        | error e => cases h₂.of_ret.2
        | ok root =>
          dsimp only at h₂
          split at h₂
          · cases h₂.of_ret.2
          · rw [persisted_append, (gentle_expectedBinding p).persisted hbind]
            exact registerPod_kept h₂
              (fun e he => ht.2 e (List.mem_append_right _ he)) hw ha hd
  · obtain ⟨rfl, heq⟩ := h₁.of_ret
    cases heq
    exact ⟨rfl, ha⟩

theorem permitPodsLoop_kept {ps : List Object} (h : (permitPodsLoop l ps).Ran evs none)
    (ht : ∀ e ∈ evs, Truthful e) (ha : ActiveWith l d) (hd : d.map truncSecond = d) :
    ActiveWith (persisted l evs) d := by
  induction ps generalizing l evs with
  | nil =>
    obtain ⟨rfl, -⟩ := h.of_ret
    exact ha
  | cons p ps ih =>
    obtain ⟨evs₁, evs₂, r, rfl, hpermit, h₁⟩ := Prog.Ran.of_bind h
    cases r with
    | error e => cases h₁.of_ret.2
    | ok l' =>
      obtain ⟨heq, hact⟩ :=
        permitPod_kept hpermit (fun e he => ht e (List.mem_append_left _ he)) ha hd
      rw [persisted_append, heq]
      exact ih h₁ (fun e he => ht e (List.mem_append_right _ he)) hact

theorem permitPods_kept (h : (permitPods l).Ran evs none) (ht : ∀ e ∈ evs, Truthful e)
    (ha : ActiveWith l d) (hd : d.map truncSecond = d) : ActiveWith (persisted l evs) d := by
  obtain ⟨r, evs₁, rfl, h₁⟩ := Prog.Ran.of_perform h
  rw [List.forall_mem_cons] at ht
  cases r with
  | error e => cases h₁.of_ret.2
  | ok pods =>
    have hloop : (permitPodsLoop l pods).Ran evs₁ none := h₁
    rw [persisted_cons]
    exact permitPodsLoop_kept hloop ht.2 ha hd

/-! ## Delays -/

/-- The pass comes back, and by `D` as seen from the last reading of the
clock. That is the reading its delay was computed from. -/
def Wakes (res : Result) (evs : List (Event ClusterSig)) (D : Time) : Prop :=
  0 < res.requeueAfter ∧
    ∃ t, (clockReadings evs).getLast? = some t ∧ t + res.requeueAfter ≤ D

/-- The last reading of the clock, and what the delay is worth at it. -/
def Timed (res : Result) (evs : List (Event ClusterSig)) (D : Time) : Prop :=
  ∃ t, (clockReadings evs).getLast? = some t ∧
    (0 < res.requeueAfter ∧ t + res.requeueAfter ≤ D ↔ t < D)

theorem Timed.wakes_iff (h : Timed res evs D) :
    Wakes res evs D ↔ ∃ t, (clockReadings evs).getLast? = some t ∧ t < D := by
  obtain ⟨t, hlast, hiff⟩ := h
  simp only [Wakes, hlast, Option.some.injEq, exists_eq_left']
  exact hiff

theorem Timed.prepend (h : Timed res evs D) (pre : List (Event ClusterSig)) :
    Timed res (pre ++ evs) D := by
  obtain ⟨t, hlast, hiff⟩ := h
  refine ⟨t, ?_, hiff⟩
  rw [clockReadings_append, List.getLast?_append, hlast]
  rfl

/-- A delay that ends at the deadline at the latest is positive before it. -/
theorem timed_of_min {t : Time} {delay : Duration} (hdelay : 0 < delay)
    (hlast : (clockReadings evs).getLast? = some t) (hres : res.requeueAfter = min delay (D - t)) :
    Timed res evs D := by
  have key : ∀ a b c : Int, 0 < a → (0 < min a (b - c) ∧ c + min a (b - c) ≤ b ↔ c < b) := by
    intro a b c ha
    omega
  refine ⟨t, hlast, ?_⟩
  rw [hres]
  exact key delay D t hdelay

/-- A delay that does not look at a deadline that has passed is too long. -/
theorem timed_of_late {t : Time} (hdelay : 0 < res.requeueAfter)
    (hlast : (clockReadings evs).getLast? = some t) (hlate : D ≤ t) : Timed res evs D := by
  have key : ∀ a b c : Int, 0 < a → b ≤ c → (0 < a ∧ c + a ≤ b ↔ c < b) := by
    intro a b c ha hbc
    omega
  exact ⟨t, hlast, key _ _ _ hdelay hlate⟩

theorem ActiveWith.phase (h : ActiveWith l d) : l.phase = .active := by
  obtain ⟨w, hw, hphase, -⟩ := h
  rw [BerthLease.phase, hw]
  exact hphase

theorem ActiveWith.unique {d' : Option Time} (h : ActiveWith l d) (h' : ActiveWith l d') :
    d = d' := by
  obtain ⟨w, hw, -, rfl⟩ := h
  obtain ⟨w', hw', -, rfl⟩ := h'
  cases hw.symm.trans hw'
  rfl

theorem ActiveWith.deadline_eq (h : ActiveWith l d) :
    l.status.workload.bind WorkloadStatus.deadline = d := by
  obtain ⟨w, hw, -, rfl⟩ := h
  rw [hw]
  rfl

theorem timePtr_some {t D : Time} (h : timePtr t = some D) : D = t := by
  unfold timePtr at h
  split at h
  · cases h
  · exact (Option.some.inj h).symm

theorem truncSecond_idem (t : Time) : truncSecond (truncSecond t) = truncSecond t := by
  unfold truncSecond
  rw [Int.mul_ediv_cancel _ (by decide)]

theorem timePtr_stored (t : Time) :
    (timePtr (truncSecond t)).map truncSecond = timePtr (truncSecond t) := by
  unfold timePtr
  split
  · rfl
  · rw [Option.map_some, truncSecond_idem]

/-! ## Renewals -/

namespace Reconciler

variable {cfg : Config} {heartbeat ttl : Duration} {deadline started : Time} {ar : AcquireResult}

theorem activateTarget_timed (hbeat : 0 < heartbeat)
    (h : (activateTarget l heartbeat deadline).Ran evs res) (herr : res.err = none)
    (ht : ∀ e ∈ evs, Truthful e) (ha : ActiveWith l (timePtr deadline))
    (hd : (timePtr deadline).map truncSecond = timePtr deadline)
    (hend : ActiveWith (persisted l evs) (some D)) : D = deadline ∧ Timed res evs D := by
  obtain ⟨evs₁, evs₂, r, rfl, hact, h₁⟩ := Prog.Ran.of_bind h
  cases r with
  | some e =>
    obtain ⟨-, rfl⟩ := h₁.of_ret
    cases herr
  | none =>
    obtain ⟨evs₃, evs₄, r, rfl, hpermit, h₂⟩ := Prog.Ran.of_bind h₁
    cases r with
    | some e =>
      obtain ⟨-, rfl⟩ := h₂.of_ret
      cases herr
    | none =>
      obtain ⟨t, evs₅, rfl, h₃⟩ := Prog.Ran.of_perform h₂
      obtain ⟨rfl, rfl⟩ := h₃.of_ret
      have hkept : ActiveWith (persisted l evs₃) (timePtr deadline) :=
        permitPods_kept hpermit
          (fun e he => ht e (List.mem_append_right _ (List.mem_append_left _ he))) ha hd
      rw [persisted_append, (gentle_applyFencedAction _ _ _ _ _).persisted hact,
        persisted_append] at hend
      have hD : D = deadline := timePtr_some (hkept.unique hend)
      subst hD
      exact ⟨rfl, ((timed_of_min hbeat rfl rfl).prepend evs₃).prepend evs₁⟩

theorem persist_timed {w : WorkloadStatus} (hbeat : 0 < heartbeat) (htarget : l.spec.target ≠ none)
    (hphase : w.phase = .active) (hdead : w.deadline = timePtr deadline)
    (hd : (timePtr deadline).map truncSecond = timePtr deadline)
    (h : (persist l (some w) ar heartbeat deadline).Ran evs res) (herr : res.err = none)
    (ht : ∀ e ∈ evs, Truthful e) (hend : ActiveWith (persisted l evs) (some D)) :
    D = deadline ∧ Timed res evs D := by
  obtain ⟨t, evs₁, rfl, h₁⟩ := Prog.Ran.of_perform h
  obtain ⟨r, evs₂, rfl, h₂⟩ := Prog.Ran.of_perform h₁
  simp only [List.forall_mem_cons] at ht
  cases r with
  | error e =>
    obtain ⟨-, rfl⟩ := h₂.of_ret
    cases herr
  | ok l' =>
    obtain ⟨hspec, hstatus⟩ := ht.2.1
    have htarget' : l'.spec.target.isSome = true := by
      rw [hspec]
      exact Option.isSome_iff_ne_none.mpr htarget
    have hact : ActiveWith l' (timePtr deadline) :=
      ActiveWith.stored (m := heldStatus l (some w) ar t) ⟨w, rfl, hphase, hdead⟩ hd hstatus
    dsimp only at h₂
    rw [if_pos htarget'] at h₂
    obtain ⟨hD, htimed⟩ := activateTarget_timed hbeat h₂ herr ht.2.2 hact hd hend
    exact ⟨hD, htimed.prepend [_, _]⟩

theorem pruneCompleted_kept {ns : String} {w w' : WorkloadStatus}
    (h : (pruneCompleted ns w).Ran evs (.ok w')) :
    (∀ e ∈ evs, e.1.gentle = true) ∧ w'.phase = w.phase ∧ w'.deadline = w.deadline := by
  unfold pruneCompleted at h
  split at h
  · obtain ⟨rfl, heq⟩ := h.of_ret
    cases heq
    exact ⟨by simp, rfl, rfl⟩
  · obtain ⟨r, evs₁, rfl, h₁⟩ := Prog.Ran.of_perform h
    cases r with
    | error e => cases h₁.of_ret.2
    | ok pods =>
      obtain ⟨rfl, heq⟩ := h₁.of_ret
      cases heq
      exact ⟨by simp [ClusterOp.gentle], rfl, rfl⟩

/-- A pass that stops is not one that leaves its lease active. -/
theorem stopAndRelease_absurd (htarget : l.spec.target ≠ none)
    (h : (stopAndRelease l).Ran evs res) (herr : res.err = none) (ht : ∀ e ∈ evs, Truthful e)
    (hend : ActiveWith (persisted l evs) d) : False :=
  stopAndRelease_stops htarget h herr ht hend.phase

theorem hold_timed (hbeat : 0 < heartbeat) (htarget : l.spec.target ≠ none)
    (hd : (timePtr deadline).map truncSecond = timePtr deadline)
    (h : (hold l ar heartbeat deadline).Ran evs res) (herr : res.err = none)
    (ht : ∀ e ∈ evs, Truthful e) (hend : ActiveWith (persisted l evs) (some D)) :
    D = deadline ∧ Timed res evs D := by
  unfold hold at h
  split at h
  · next hnone => exact absurd hnone htarget
  · obtain ⟨-, rfl⟩ := h.of_ret
    cases herr
  split at h
  · exact (stopAndRelease_absurd htarget h herr ht hend).elim
  obtain ⟨evs₁, evs₂, r, rfl, hprune, h₁⟩ := Prog.Ran.of_bind h
  cases r with
  | error e =>
    obtain ⟨-, rfl⟩ := h₁.of_ret
    cases herr
  | ok w' =>
    obtain ⟨hgentle, hphase, hdead⟩ := pruneCompleted_kept hprune
    rw [persisted_append, persisted_gentle hgentle] at hend
    obtain ⟨hD, htimed⟩ := persist_timed hbeat htarget hphase hdead hd h₁ herr
      (fun e he => ht e (List.mem_append_right _ he)) hend
    exact ⟨hD, htimed.prepend evs₁⟩

theorem granted_timed (hbeat : 0 < heartbeat) (htarget : l.spec.target ≠ none)
    (h : (granted cfg l heartbeat ttl started ar).Ran evs res) (herr : res.err = none)
    (ht : ∀ e ∈ evs, Truthful e) (hend : ActiveWith (persisted l evs) (some D)) :
    D = truncSecond (minTime (started + ttl) ar.expiresAt) ∧ Timed res evs D := by
  unfold granted at h
  split at h
  · obtain ⟨-, rfl⟩ := h.of_ret
    cases herr
  obtain ⟨t₁, evs₁, rfl, h₁⟩ := Prog.Ran.of_perform h
  rw [List.forall_mem_cons] at ht
  split at h₁
  · obtain ⟨-, rfl⟩ := h₁.of_ret
    cases herr
  obtain ⟨t₂, evs₂, rfl, h₂⟩ := Prog.Ran.of_perform h₁
  rw [List.forall_mem_cons] at ht
  split at h₂
  · exact (stopAndRelease_absurd htarget h₂ herr ht.2.2 hend).elim
  · obtain ⟨hD, htimed⟩ := hold_timed hbeat htarget (timePtr_stored _) h₂ herr ht.2.2 hend
    exact ⟨hD, htimed.prepend [_, _]⟩

/-! ## Failed heartbeats -/

theorem clip_ran {t : Time} {delay next : Duration} (h : (clip l t delay).Ran evs next) :
    (activeAt l t = true ∧ ∃ t' : Time, evs = [⟨.now, t'⟩] ∧
        next = min delay ((l.status.workload.bind WorkloadStatus.deadline).getD zeroTime - t')) ∨
      (activeAt l t = false ∧ evs = [] ∧ next = delay) := by
  unfold clip at h
  split at h
  · next hact =>
    obtain ⟨t', evs₁, rfl, h₁⟩ := Prog.Ran.of_perform h
    obtain ⟨rfl, rfl⟩ := h₁.of_ret
    exact .inl ⟨hact, t', rfl, rfl⟩
  · next hact =>
    obtain ⟨rfl, rfl⟩ := h.of_ret
    exact .inr ⟨Bool.eq_false_iff.mpr hact, rfl, rfl⟩

/-- An activation that has not lapsed was live at some reading. -/
theorem lapsed_false (h : (lapsed l).Ran evs false) (ha : ActiveWith l d) :
    ∃ t, activeAt l t = true := by
  obtain ⟨w, hw, hphase, -⟩ := ha
  simp only [lapsed, hw, hphase, if_true] at h
  obtain ⟨t, evs₁, rfl, h₁⟩ := Prog.Ran.of_perform h
  exact ⟨t, by simpa using h₁.of_ret.2⟩

/-- Two instants of one activation differ only in the deadline. -/
theorem activeAt_deadline {t₀ : Time} (h₀ : activeAt l t₀ = true) (ha : ActiveWith l (some D))
    (t : Time) : activeAt l t = true ↔ t < D := by
  obtain ⟨hdel, w, d, hw, hphase, hd, -, htok⟩ := activeAt_iff.mp h₀
  obtain ⟨w', hw', -, hD⟩ := ha
  cases hw.symm.trans hw'
  cases hd.symm.trans hD
  rw [activeAt_iff]
  constructor
  · rintro ⟨-, w', d', hw', -, hd', hlt, -⟩
    cases hw.symm.trans hw'
    cases hd.symm.trans hd'
    exact hlt
  · intro hlt
    exact ⟨hdel, w, D, hw, hphase, hd, hlt, htok⟩

theorem acquireFailed_timed {e : Err} (hbeat : 0 < heartbeat) (htarget : l.spec.target ≠ none)
    (hstored : l.status.stored.workload = l.status.workload)
    (h : (acquireFailed l heartbeat e).Ran evs res) (herr : res.err = none)
    (ht : ∀ e ∈ evs, Truthful e) (hend : ActiveWith (persisted l evs) (some D)) :
    l.status.workload.bind WorkloadStatus.deadline = some D ∧ Timed res evs D := by
  obtain ⟨evs₁, evs₂, b, rfl, hlapsed, h₁⟩ := Prog.Ran.of_bind h
  rw [persisted_append, (gentle_lapsed l).persisted hlapsed] at hend
  rw [List.forall_mem_append] at ht
  cases b with
  | true => exact (stopAndRelease_absurd htarget h₁ herr ht.2 hend).elim
  | false =>
    obtain ⟨(t : Time), evs₃, rfl, h₂⟩ := Prog.Ran.of_perform h₁
    obtain ⟨evs₄, evs₅, next, rfl, hclip, h₃⟩ := Prog.Ran.of_bind h₂
    obtain ⟨r, evs₆, rfl, h₄⟩ := Prog.Ran.of_perform h₃
    obtain ⟨rfl, rfl⟩ := h₄.of_ret
    cases r with
    | error e => cases herr
    | ok l' =>
      have hstatus : l'.status.workload = l.status.workload := by
        have htrue :=
          ht.2 _ (List.mem_cons_of_mem _ (List.mem_append_right _ List.mem_cons_self))
        rw [htrue.2]
        exact hstored
      have hact : ActiveWith l (some D) := by
        rw [persisted_cons, persisted_append, (gentle_clip _ _ _).persisted hclip] at hend
        obtain ⟨w, hw, hphase, hd⟩ := hend
        exact ⟨w, hstatus.symm.trans hw, hphase, hd⟩
      obtain ⟨t₀, ht₀⟩ := lapsed_false hlapsed hact
      refine ⟨hact.deadline_eq, ?_⟩
      refine Timed.prepend ?_ evs₁
      have hpos : 0 < min heartbeat second := Int.lt_min.mpr ⟨hbeat, by decide⟩
      rcases clip_ran hclip with ⟨-, t', rfl, rfl⟩ | ⟨hpast, rfl, rfl⟩
      · rw [hact.deadline_eq]
        exact timed_of_min hpos rfl rfl
      have hlate : ¬ t < D := by
        rw [← activeAt_deadline ht₀ hact t, hpast]
        exact Bool.false_ne_true
      exact timed_of_late hpos rfl (Int.not_lt.mp hlate)

/-! ## A pass -/

/-- The deadline that a lease and the answer to its Acquire give. The Acquire
was sent at `started`. -/
def deadlineOf (l : BerthLease) (started : Time) :
    Option (Except Err AcquireResult) → Option Time
  | some (.ok ar) =>
    some (truncSecond (minTime (started + l.spec.ttlSeconds * second) ar.expiresAt))
  | _ => l.status.workload.bind WorkloadStatus.deadline

theorem acquireAnswer_append (h : acquireAnswer evs = none) :
    acquireAnswer (evs ++ evs') = acquireAnswer evs' := by
  unfold acquireAnswer at h ⊢
  rw [List.findSome?_append, h]
  rfl

theorem leaseClient_acquire_ran {key : Key} {holder : String} {budget : Duration}
    {r : Except Err AcquireResult} (h : (LeaseClient.acquire l key holder ttl budget).Ran evs r) :
    clockReadings evs = [] ∧ acquireAnswer evs = some r ∧ persisted m evs = m := by
  obtain ⟨id, evs₁, rfl, h₁⟩ := Prog.Ran.of_perform h
  obtain ⟨ans, evs₂, rfl, h₂⟩ := Prog.Ran.of_perform h₁
  cases ans with
  | error e =>
    obtain ⟨rfl, rfl⟩ := h₂.of_ret
    exact ⟨rfl, rfl, rfl⟩
  | ok resp =>
    obtain ⟨rfl, rfl⟩ := h₂.of_ret
    exact ⟨rfl, rfl, rfl⟩

/-- From the Acquire on: the first reading is the one it was sent at. -/
theorem acquire_timed (hbeat : 0 < l.spec.heartbeatIntervalSeconds) (htarget : l.spec.target ≠ none)
    (hstored : l.status.stored.workload = l.status.workload)
    (h : (acquire cfg l).Ran evs res) (herr : res.err = none) (ht : ∀ e ∈ evs, Truthful e)
    (hend : ActiveWith (persisted l evs) (some D)) :
    (∃ started rest, clockReadings evs = started :: rest ∧
      deadlineOf l started (acquireAnswer evs) = some D) ∧ Timed res evs D := by
  obtain ⟨(started : Time), evs₁, rfl, h₁⟩ := Prog.Ran.of_perform h
  obtain ⟨evs₂, evs₃, budget, rfl, hclip, h₂⟩ := Prog.Ran.of_bind h₁
  obtain ⟨evs₄, evs₅, r, rfl, hacq, h₃⟩ := Prog.Ran.of_bind h₂
  obtain ⟨hreads, hanswer, hkeep⟩ := leaseClient_acquire_ran (m := l) hacq
  have hpos : 0 < l.spec.heartbeatIntervalSeconds * second := Int.mul_pos hbeat (by decide)
  have hclipped : acquireAnswer evs₂ = none := by
    rcases clip_ran hclip with ⟨-, t, rfl, -⟩ | ⟨-, rfl, -⟩ <;> rfl
  have hall : acquireAnswer (⟨.now, started⟩ :: (evs₂ ++ (evs₄ ++ evs₅))) = some r := by
    have hfirst : acquireAnswer ([⟨.now, started⟩] ++ (evs₂ ++ (evs₄ ++ evs₅))) =
        acquireAnswer (evs₂ ++ (evs₄ ++ evs₅)) := acquireAnswer_append rfl
    rw [acquireAnswer_append hclipped] at hfirst
    refine hfirst.trans ?_
    unfold acquireAnswer at hanswer ⊢
    rw [List.findSome?_append, hanswer]
    rfl
  have hrest : ∀ e ∈ evs₅, Truthful e := fun e he =>
    ht e (List.mem_cons_of_mem _ (List.mem_append_right _ (List.mem_append_right _ he)))
  have hnow : persistedAfter l ⟨.now, started⟩ = l := rfl
  rw [persisted_cons, hnow, persisted_append, (gentle_clip _ _ _).persisted hclip,
    persisted_append, hkeep] at hend
  have hfinal : deadlineOf l started (some r) = some D ∧ Timed res evs₅ D := by
    cases r with
    | error e => exact acquireFailed_timed hpos htarget hstored h₃ herr hrest hend
    | ok ar =>
      dsimp only at h₃
      split at h₃
      · unfold heldByOther at h₃
        rw [if_pos (Option.isSome_iff_ne_none.mpr htarget)] at h₃
        exact (stopAndRelease_absurd htarget h₃ herr hrest hend).elim
      · obtain ⟨rfl, htimed⟩ := granted_timed hpos htarget h₃ herr hrest hend
        exact ⟨rfl, htimed⟩
  rw [hall]
  exact ⟨⟨started, _, rfl, hfinal.1⟩, ((hfinal.2.prepend evs₄).prepend evs₂).prepend [_]⟩

theorem verifyTarget_ran {τ : TargetRef} {r : Option Err} (h : (verifyTarget cfg l τ).Ran evs r) :
    clockReadings evs = [] ∧ acquireAnswer evs = none := by
  unfold verifyTarget at h
  split at h
  · rw [h.of_ret.1]
    exact ⟨rfl, rfl⟩
  split at h
  · rw [h.of_ret.1]
    exact ⟨rfl, rfl⟩
  split at h
  · rw [h.of_ret.1]
    exact ⟨rfl, rfl⟩
  split at h
  · rw [h.of_ret.1]
    exact ⟨rfl, rfl⟩
  obtain ⟨got, evs₁, rfl, h₁⟩ := Prog.Ran.of_perform h
  have hnil : evs₁ = [] := by
    cases got with
    | error e => exact h₁.of_ret.1
    | ok o =>
      dsimp only at h₁
      split at h₁ <;> exact h₁.of_ret.1
  rw [hnil]
  exact ⟨rfl, rfl⟩

/-- The first branch reads the clock for an active lease only. -/
theorem mustStop_ran (h : (mustStop cfg l).Ran evs false) :
    acquireAnswer evs = none ∧ (clockReadings evs).length = if l.phase = .active then 1 else 0 := by
  unfold mustStop at h
  split at h
  · cases h.of_ret.2
  split at h
  · next hw =>
    rw [h.of_ret.1, phase_none hw]
    exact ⟨rfl, rfl⟩
  · next w hw =>
    split at h
    · next hphase =>
      rw [h.of_ret.1, phase_some hw, hphase]
      exact ⟨rfl, rfl⟩
    · cases h.of_ret.2
    · next hphase =>
      obtain ⟨t, evs₁, rfl, h₁⟩ := Prog.Ran.of_perform h
      rw [h₁.of_ret.1, phase_some hw, hphase]
      exact ⟨rfl, rfl⟩

theorem unverified_absurd {e : Err} (htarget : l.spec.target ≠ none)
    (h : (unverified l e).Ran evs res) (herr : res.err = none) (ht : ∀ e ∈ evs, Truthful e)
    (hend : ActiveWith (persisted l evs) d) : False := by
  unfold unverified at h
  split at h
  · exact stopAndRelease_absurd htarget h herr ht hend
  rename_i hphase
  obtain ⟨evs₁, evs₂, stopErr, rfl, hstop, h₁⟩ := Prog.Ran.of_bind h
  obtain ⟨r, evs₃, rfl, h₂⟩ := Prog.Ran.of_perform h₁
  obtain ⟨rfl, rfl⟩ := h₂.of_ret
  rw [persisted_append, (gentle_stopTarget l).persisted hstop] at hend
  cases r with
  | error e => cases stopErr <;> cases herr
  | ok l' =>
    have htrue := ht _ (List.mem_append_right _ List.mem_cons_self)
    have hsame : l'.phase = (l.condition .acquired false "AdmissionRequired" e.text).phase :=
      phase_stored htrue.2
    exact hphase (hsame.symm.trans hend.phase)

theorem validateSpec_heartbeat (h : validateSpec l.spec = none) :
    0 < l.spec.heartbeatIntervalSeconds := by
  unfold validateSpec at h
  split at h
  · cases h
  split at h
  · cases h
  split at h
  · cases h
  · split at h
    · cases h
    · next hbeat => exact Int.not_le.mp hbeat

theorem observe_timed (htarget : l.spec.target ≠ none)
    (hstored : l.status.stored.workload = l.status.workload)
    (h : (observe cfg l).Ran evs res) (herr : res.err = none) (ht : ∀ e ∈ evs, Truthful e)
    (hend : ActiveWith (persisted l evs) (some D)) :
    (∃ started, (clockReadings evs)[if l.phase = .active then 1 else 0]? = some started ∧
      deadlineOf l started (acquireAnswer evs) = some D) ∧ Timed res evs D := by
  obtain ⟨evs₁, evs₂, b, rfl, hmust, h₁⟩ := Prog.Ran.of_bind h
  rw [persisted_append, (gentle_mustStop cfg l).persisted hmust] at hend
  rw [List.forall_mem_append] at ht
  cases b with
  | true => exact (stopAndRelease_absurd htarget h₁ herr ht.2 hend).elim
  | false =>
    obtain ⟨hno, hlen⟩ := mustStop_ran hmust
    rw [if_neg Bool.false_ne_true] at h₁
    split at h₁
    · exact (stopAndRelease_absurd htarget h₁ herr ht.2 hend).elim
    · next hnone => exact absurd hnone htarget
    · next hnone => exact absurd hnone htarget
    rename_i τ hvalid hsome
    obtain ⟨evs₃, evs₄, r, rfl, hverify, h₂⟩ := Prog.Ran.of_bind h₁
    rw [persisted_append, (gentle_verifyTarget cfg l τ).persisted hverify] at hend
    rw [List.forall_mem_append] at ht
    cases r with
    | some e => exact (unverified_absurd htarget h₂ herr ht.2.2 hend).elim
    | none =>
      obtain ⟨hreads, hnone⟩ := verifyTarget_ran hverify
      obtain ⟨⟨started, rest, hstart, hdead⟩, htimed⟩ :=
        acquire_timed (validateSpec_heartbeat hvalid) htarget hstored h₂ herr ht.2.2 hend
      refine ⟨⟨started, ?_, ?_⟩, (htimed.prepend evs₃).prepend evs₁⟩
      · rw [clockReadings_append, clockReadings_append, hreads, List.nil_append, hstart, ← hlen]
        simp
      · rw [acquireAnswer_append hno, acquireAnswer_append hnone]
        exact hdead

end Reconciler

/-! ## The wake-up -/

/-- The deadline of the lease in a pass, by what it has read: the one of the
renewal, if the central server has granted one, or the one it had. The
Acquire is sent at the first reading, or at the second if the lease was
active. -/
def horizon (l : BerthLease) (evs : List (Event ClusterSig)) : Option Time :=
  (clockReadings evs)[if l.phase = .active then 1 else 0]?.bind fun started =>
    Reconciler.deadlineOf l started (acquireAnswer evs)

/-- The lease has the finalizer, and the last reading of the clock is before
its deadline. -/
def OnTime (l : BerthLease) (evs : List (Event ClusterSig)) : Prop :=
  finalizerName ∈ l.finalizers ∧
    ∃ t D, (clockReadings evs).getLast? = some t ∧ horizon l evs = some D ∧ t < D

/-- A pass over a lease with a target that returns no error and leaves it
active with deadline `D` comes back by `D`, if and only if it is on time. -/
theorem active_wakes_iff (cfg : Config) (key : Key) (l : BerthLease)
    (evs : List (Event ClusterSig)) (res : Result)
    (h : (Reconciler.reconcile cfg key).Ran (⟨.getLease key, .ok l⟩ :: evs) res)
    (ht : ∀ e ∈ (⟨.getLease key, .ok l⟩ :: evs : List (Event ClusterSig)), Truthful e)
    (htarget : l.spec.target ≠ none) (herr : res.err = none) (D : Time)
    (hend : ActiveWith (persisted l evs) (some D)) : Wakes res evs D ↔ OnTime l evs := by
  obtain ⟨r, evs₁, heq, h₁⟩ := Prog.Ran.of_perform h
  cases heq
  rw [List.forall_mem_cons] at ht
  have hnot : finalizerName ∉ l.finalizers → ¬ OnTime l evs := fun hfin hon => hfin hon.1
  dsimp only at h₁
  split at h₁
  · next hfin =>
    -- the finalizer is put on, or there is nothing left to do: no delay
    have hzero : res.requeueAfter = 0 := by
      split at h₁
      · rw [← h₁.of_ret.2]
      · obtain ⟨r, evs₂, rfl, h₂⟩ := Prog.Ran.of_perform h₁
        rw [← h₂.of_ret.2]
    refine iff_of_false ?_ (hnot hfin)
    rintro ⟨hpos, -⟩
    rw [hzero] at hpos
    exact absurd hpos (Int.lt_irrefl 0)
  · next hfin =>
    have hstored : l.status.stored.workload = l.status.workload := by rw [ht.1]
    -- the pass works on a copy, which differs in the observed generation
    obtain ⟨m, hwork, hspec, hobs⟩ : ∃ m : BerthLease, m.status.workload = l.status.workload ∧
        m.spec = l.spec ∧ (Reconciler.observe cfg m).Ran evs res := by
      refine ⟨_, ?_, ?_, h₁⟩ <;> rfl
    have hcopy : m.status.stored.workload = m.status.workload := by
      rw [hwork, ← hstored]
      simp only [BerthLeaseStatus.stored, hwork]
    have hphase : m.phase = l.phase := by rw [BerthLease.phase, hwork, BerthLease.phase]
    have hend' : ActiveWith (persisted m evs) (some D) := by
      obtain ⟨w, hw, hrest⟩ := hend
      exact ⟨w, (persisted_workload hwork).trans hw, hrest⟩
    obtain ⟨⟨started, hstart, hdead⟩, htimed⟩ :=
      Reconciler.observe_timed (by rwa [hspec]) hcopy hobs herr ht.2 hend'
    have hhorizon : horizon l evs = some D := by
      rw [hphase] at hstart
      rw [horizon, hstart, Option.bind_some, ← hdead]
      simp only [Reconciler.deadlineOf, hwork, hspec]
    rw [htimed.wakes_iff]
    constructor
    · rintro ⟨t, hlast, hlt⟩
      exact ⟨not_not.mp hfin, t, D, hlast, hhorizon, hlt⟩
    · rintro ⟨-, t, D', hlast, hD', hlt⟩
      cases hhorizon.symm.trans hD'
      exact ⟨t, hlast, hlt⟩

/-! ## A pass that is too slow -/

/-- An idle lease of three seconds. -/
def brief : BerthLease :=
  { nightly with
    finalizers := [finalizerName]
    spec := { nightly.spec with ttlSeconds := 3, heartbeatIntervalSeconds := 1 }
    status := { workload := some { targetUID := "target-1" }, observedGeneration := 1 } }

def briefGrant : AcquireResult :=
  { acquired := true, holder := "east", fencingToken := 1
    acquiredAt := 100 * second, expiresAt := 103 * second }

/-- The ownership that the pass persists at second 100. -/
def briefHeld : BerthLease :=
  Reconciler.heldStatus brief
    (brief.status.workload.map (Reconciler.activeRecord brief · briefGrant (103 * second)))
    briefGrant (100 * second)

/-- The pass acquires the lease at second 100 and scales the target up. The
clock is read for the last time at `last`. -/
def briefPass (last : Time) : List (Event ClusterSig) :=
  [⟨.getLease brief.key, .ok brief⟩,
   ⟨.getObject web.key, .ok web⟩,
   ⟨.now, (100 * second : Int)⟩,
   ⟨.post brief brief.central (acquireEndpoint "east" (3 * second)), (0 : Nat)⟩,
   ⟨.await 0 second, .ok ⟨200, .lease briefGrant⟩⟩,
   ⟨.now, (100 * second : Int)⟩, ⟨.now, (100 * second : Int)⟩, ⟨.now, (100 * second : Int)⟩,
   ⟨.updateStatus briefHeld, .ok (briefHeld.withStatus briefHeld.status)⟩,
   ⟨.getObject web.key, .ok web⟩,
   ⟨.submit { web with replicas := some 1 }, (0 : Nat)⟩, ⟨.awaitWrite 0, .ok ()⟩,
   ⟨.listObjects "v1" "Pod" "jobs" (some "lease-1"), .ok []⟩,
   ⟨.now, last⟩]

theorem briefPass_truthful (last : Time) : ∀ e ∈ briefPass last, Truthful e := by
  simp only [briefPass, List.forall_mem_cons, Truthful, true_and]
  exact ⟨by decide, ⟨rfl, rfl⟩, by simp⟩

theorem briefPass_active (last : Time) :
    ActiveWith (persisted brief (briefPass last).tail) (some (103 * second)) :=
  ⟨Reconciler.activeRecord brief { targetUID := "target-1" } briefGrant (103 * second),
    rfl, rfl, by decide⟩

theorem active_wakes_on_time :
    Wakes ⟨second, none⟩ (briefPass (101 * second)).tail (103 * second) :=
  (active_wakes_iff { operatorUser := "operator" } brief.key brief _ _
    (Prog.ran_of_feed (by decide)) (briefPass_truthful _) (by decide) rfl _
    (briefPass_active _)).mpr
    ⟨by decide, 101 * second, 103 * second, rfl, by decide, by decide⟩

/-- The writes take four seconds. The pass returns no error and the lease is
active until second 103, but the delay is negative, so nothing is scheduled. -/
theorem slow_pass_sleeps :
    (Reconciler.reconcile { operatorUser := "operator" } brief.key).Ran (briefPass (104 * second))
      ⟨-second, none⟩ ∧
    (∀ e ∈ briefPass (104 * second), Truthful e) ∧
    (clockReadings (briefPass (104 * second))).Pairwise (· ≤ ·) ∧
    ActiveWith (persisted brief (briefPass (104 * second)).tail) (some (103 * second)) ∧
    ¬ Wakes ⟨-second, none⟩ (briefPass (104 * second)).tail (103 * second) := by
  refine ⟨Prog.ran_of_feed (by decide), briefPass_truthful _, by decide,
    briefPass_active _, ?_⟩
  rintro ⟨hpos, -⟩
  exact absurd hpos (by decide)

end Berth.Operator
