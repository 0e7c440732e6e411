/-
Berth.Acquire.FreshTheorems — the freshness bound of the health marker.

A run is given with the instant of every effect (`Timed`). Wherever it is
cut (`Cut`), the marker that is there was written at the late-response
check of the last confirmed request, within one heartbeat of its start;
and while a deadline is in force, the marker is there, unless the run is
cut in the middle of the instant at which it is written. `Settled` is what
carries this from one turn to the next.
-/
import Berth.Acquire.GateTheorems
import Berth.Acquire.Marker

namespace Berth.Acquire

open Berth.Interleave Berth.Lease Berth.Api Berth.Client

variable {evs evs' : List Told} {r r' : Renewer}

/-! ## Instants -/

/-- An effect with its answer, and the instant of it. -/
abbrev Stamped := Time × Told

/-- The effects without their instants. -/
def plain (xs : List Stamped) : List Told := xs.map Prod.snd

/-- What the sidecar believes after these effects. -/
def runtimeAt (xs : List Stamped) : Runtime := assigned {} (plain xs)

def markerStep (m : Option Time) : Stamped → Option Time
  | (t, ⟨.writeFileAtomic .healthy _, .ok ()⟩) => some t
  | (_, ⟨.remove .healthy, .ok ()⟩) => none
  | (_, ⟨.remove .healthy, .error .absent⟩) => none
  | _ => m

/-- The modification time of the marker after these effects, if it is
there. -/
def markerAt (m : Option Time) (xs : List Stamped) : Option Time := xs.foldl markerStep m

/-- What `os.Stat` says of the marker. -/
def statOf : Option Time → Except SysErr Time
  | none => .error .absent
  | some t => .ok t

def HelperOp.isNow : HelperOp → Bool
  | .now => true
  | _ => false

def HelperOp.isPost : HelperOp → Bool
  | .post _ _ => true
  | _ => false

def HelperOp.isCheck : HelperOp → Bool
  | .rpcCtxErr _ => true
  | _ => false

def HelperOp.marks : HelperOp → Bool
  | .writeFileAtomic .healthy _ => true
  | _ => false

/-- The deadline of a context that has not ended. -/
def running? : Told → Option Time
  | ⟨.rpcCtxErr d, false⟩ => some d
  | _ => none

/-- Two clock readings right before a request are of one instant. -/
def TickReads : List Stamped → Prop
  | x :: y :: z :: xs =>
    (x.2.1.isNow = true → y.2.1.isNow = true → z.2.1.isPost = true → x.1 = y.1) ∧
      TickReads (y :: z :: xs)
  | _ => True

instance TickReads.decidable : (xs : List Stamped) → Decidable (TickReads xs)
  | [] => isTrue trivial
  | [_] => isTrue trivial
  | [_, _] => isTrue trivial
  | _ :: y :: z :: xs =>
    have := TickReads.decidable (y :: z :: xs)
    inferInstanceAs (Decidable (_ ∧ _))

/-- Marker writes are of the instant of the last check before them. -/
def MarksAtCheck : Option Time → List Stamped → Prop
  | _, [] => True
  | last, x :: xs =>
    (x.2.1.marks = true → ∀ c ∈ last, x.1 = c) ∧
      MarksAtCheck (if x.2.1.isCheck then some x.1 else last) xs

instance MarksAtCheck.decidable : (last : Option Time) → (xs : List Stamped) →
    Decidable (MarksAtCheck last xs)
  | _, [] => isTrue trivial
  | last, x :: xs =>
    have := MarksAtCheck.decidable (if x.2.1.isCheck then some x.1 else last) xs
    inferInstanceAs (Decidable (_ ∧ _))

/-- The instants of a run. The clock moves forward and says what it is, and
the context of a request ends with its deadline. The start and the
deadline of a request are read at one instant. Marker writes succeed, at
the instant of the late-response check before them. -/
structure Timed (xs : List Stamped) : Prop where
  forward : xs.Pairwise fun x y => x.1 ≤ y.1
  epoch : ∀ x ∈ xs, zeroTime ≤ x.1
  reads : ∀ x ∈ xs, ∀ τ ∈ reading? x.2, τ = x.1
  punctual : ∀ x ∈ xs, ∀ d ∈ running? x.2, x.1 ≤ d
  tick : TickReads xs
  writes : Writes (plain xs)
  mark : MarksAtCheck none xs

theorem TickReads.of_append {pre post : List Stamped} {x y z : Stamped}
    (h : TickReads (pre ++ x :: y :: z :: post)) (hx : x.2.1.isNow = true)
    (hy : y.2.1.isNow = true) (hz : z.2.1.isPost = true) : x.1 = y.1 := by
  induction pre with
  | nil => exact h.1 hx hy hz
  | cons a pre ih =>
    refine ih ?_
    rcases pre with _ | ⟨b, _ | ⟨c, pre⟩⟩
    · exact h.2
    · exact h.2
    · exact h.2

theorem MarksAtCheck.of_cons {c : Time} {mid post : List Stamped} {y : Stamped}
    (h : MarksAtCheck (some c) (mid ++ y :: post)) (hmid : ∀ z ∈ mid, z.2.1.isCheck = false)
    (hy : y.2.1.marks = true) : y.1 = c := by
  induction mid with
  | nil => exact h.1 hy c rfl
  | cons z mid ih =>
    obtain ⟨hz, hrest⟩ := List.forall_mem_cons.mp hmid
    have h₂ := h.2
    rw [hz, if_neg Bool.false_ne_true] at h₂
    exact ih h₂ hrest

theorem MarksAtCheck.of_append {last : Option Time} {pre mid post : List Stamped} {x y : Stamped}
    (h : MarksAtCheck last (pre ++ x :: (mid ++ y :: post))) (hx : x.2.1.isCheck = true)
    (hmid : ∀ z ∈ mid, z.2.1.isCheck = false) (hy : y.2.1.marks = true) : y.1 = x.1 := by
  induction pre generalizing last with
  | nil =>
    have h₂ := h.2
    rw [hx, if_pos rfl] at h₂
    exact h₂.of_cons hmid hy
  | cons a pre ih => exact ih h.2

section Instants

variable {xs ys : List Stamped} {m : Option Time}

@[simp] theorem plain_append : plain (xs ++ ys) = plain xs ++ plain ys := List.map_append

theorem markerAt_append : markerAt m (xs ++ ys) = markerAt (markerAt m xs) ys := List.foldl_append

theorem runtimeAt_append : runtimeAt (xs ++ ys) = assigned (runtimeAt xs) (plain ys) := by
  unfold runtimeAt
  rw [plain_append, assigned_append]

/-- An effect that opens nothing leaves the marker or takes it away. -/
theorem markerStep_shut {x : Stamped} (h : x.2.1.opens = false) :
    markerStep m x = m ∨ markerStep m x = none := by
  obtain ⟨t, o, a⟩ := x
  cases o with
  | writeFileAtomic f data => cases h
  | remove f =>
    cases f with
    | healthy => rcases a with (_ | _) | _ <;> simp [markerStep]
    | _ => exact .inl rfl
  | _ => exact .inl rfl

theorem markerAt_shut (h : Shut (plain xs)) : markerAt m xs = m ∨ markerAt m xs = none := by
  induction xs generalizing m with
  | nil => exact .inl rfl
  | cons x xs ih =>
    obtain ⟨hx, hxs⟩ := shut_cons.mp h
    show markerAt (markerStep m x) xs = m ∨ markerAt (markerStep m x) xs = none
    rcases markerStep_shut (m := m) hx with heq | heq
    · rw [heq]
      exact ih hxs
    · rw [heq]
      exact .inr ((ih hxs).elim id id)

theorem markerAt_calm (h : Calm (plain xs)) : markerAt m xs = m := by
  induction xs with
  | nil => rfl
  | cons x xs ih =>
    obtain ⟨hx, hxs⟩ := List.forall_mem_cons.mp h
    have hsame : markerStep m x = m := by
      obtain ⟨t, o, a⟩ := x
      cases o with
      | writeFileAtomic f data => cases hx.1
      | remove f =>
        cases f with
        | healthy => cases hx.2
        | _ => rfl
      | _ => rfl
    show markerAt (markerStep m x) xs = m
    rw [hsame]
    exact ih hxs

/-- Files that are written at one instant. -/
theorem markerAt_opens {c : Time} (h : ∀ x ∈ xs, x.2.1.opens = true ∧ x.1 = c) :
    markerAt m xs = m ∨ markerAt m xs = some c := by
  induction xs generalizing m with
  | nil => exact .inl rfl
  | cons x xs ih =>
    obtain ⟨⟨hx, hc⟩, hxs⟩ := List.forall_mem_cons.mp h
    have hstep : markerStep m x = m ∨ markerStep m x = some c := by
      obtain ⟨t, o, a⟩ := x
      cases o with
      | writeFileAtomic f data =>
        cases f with
        | healthy =>
          cases a with
          | error e => exact .inl rfl
          | ok u =>
            cases hc
            exact .inr rfl
        | _ => exact .inl rfl
      | mkdirAll => exact .inl rfl
      | _ => cases hx
    show markerAt (markerStep m x) xs = m ∨ markerAt (markerStep m x) xs = some c
    rcases hstep with heq | heq
    · rw [heq]
      exact ih hxs
    · rw [heq]
      exact .inr ((ih hxs).elim id id)

end Instants

/-! ## Cuts -/

/-- A request for the lease, started at `s`, was granted. -/
def Asked (cfg : Config) (s : Time) (xs : List Stamped) : Prop :=
  ∃ (pre post : List Told) (endpoint : Endpoint) (id : Nat) (resp : Response) (res : AcquireResult)
    (holder : String) (token : Int),
    plain xs = pre ++ [⟨.now, s⟩, ⟨.now, s⟩, ⟨.post cfg.key endpoint, id⟩, ⟨.await id, .ok resp⟩] ++
      post ∧
    (endpoint = renewEndpoint holder token cfg.ttl ∨ endpoint = acquireEndpoint holder cfg.ttl) ∧
    decode resp = .ok res ∧ res.acquired = true

variable (cfg : Config) (m₀ : Option Time)

/-- While a deadline is in force, the marker is as old as its request at
most. -/
def Fresh (xs : List Stamped) : Prop :=
  (runtimeAt xs).held = true → (runtimeAt xs).expiresAt ≠ zeroTime →
    ∃ c, markerAt m₀ xs = some c ∧ (runtimeAt xs).expiresAt ≤ c + cfg.ttl

/-- A marker that is there was written within one heartbeat of the start
of the last confirmed request. -/
def Recent (xs : List Stamped) : Prop :=
  ∀ c, markerAt m₀ xs = some c →
    ∃ s, (runtimeAt xs).expiresAt = s + cfg.ttl ∧ Asked cfg s xs ∧
      c ≤ s + cfg.heartbeatInterval

/-- The marker was once removed, or found missing. -/
def Swept (xs : List Stamped) : Prop := ∃ x ∈ xs, Removed x.2

/-- More happens at the instant at which the run is cut. -/
def Midway (xs ys : List Stamped) : Prop := ∃ x ∈ xs, ∃ y ∈ ys, y.1 ≤ x.1

/-- What holds where a run is cut into `xs` and `ys`. -/
structure Cut (xs ys : List Stamped) : Prop where
  recent : m₀ = none ∨ Swept xs → Recent cfg m₀ xs
  fresh : Fresh cfg m₀ xs ∨ Midway xs ys

/-- What holds wherever a run is cut on the way through `xs`. -/
def Through (pre xs post : List Stamped) : Prop :=
  ∀ xs₁ xs₂, xs = xs₁ ++ xs₂ → Cut cfg m₀ (pre ++ xs₁) (xs₂ ++ post)

/-- What holds where the renewer `r` has its runtime state on record. -/
structure Settled (xs : List Stamped) (r : Renewer) : Prop where
  rt : runtimeAt xs = r.rt
  config : r.cfg = cfg
  fresh : Fresh cfg m₀ xs
  recent : Recent cfg m₀ xs
  stamped : ∀ c, markerAt m₀ xs = some c → ∃ x ∈ xs, x.1 = c

variable {cfg m₀} {pre xs ys post : List Stamped}

theorem Asked.append {s : Time} (h : Asked cfg s xs) : Asked cfg s (xs ++ ys) := by
  obtain ⟨pre, post, endpoint, id, resp, res, holder, token, heq, hrest⟩ := h
  refine ⟨pre, post ++ plain ys, endpoint, id, resp, res, holder, token, ?_, hrest⟩
  rw [plain_append, heq, List.append_assoc]

theorem Asked.prepend {s : Time} (h : Asked cfg s ys) : Asked cfg s (xs ++ ys) := by
  obtain ⟨pre, post, endpoint, id, resp, res, holder, token, heq, hrest⟩ := h
  refine ⟨plain xs ++ pre, post, endpoint, id, resp, res, holder, token, ?_, hrest⟩
  rw [plain_append, heq, ← List.append_assoc, ← List.append_assoc]

theorem Through.append (h : Through cfg m₀ pre xs (ys ++ post))
    (h' : Through cfg m₀ (pre ++ xs) ys post) : Through cfg m₀ pre (xs ++ ys) post := by
  intro zs₁ zs₂ heq
  rcases List.append_eq_append_iff.mp heq with ⟨as, rfl, rfl⟩ | ⟨bs, rfl, rfl⟩
  · rw [← List.append_assoc]
    exact h' as zs₂ rfl
  · rw [List.append_assoc]
    exact h zs₁ bs rfl

theorem Through.single {x : Stamped} (h : Cut cfg m₀ pre (x :: post))
    (h' : Cut cfg m₀ (pre ++ [x]) post) : Through cfg m₀ pre [x] post := by
  intro zs₁ zs₂ heq
  cases zs₁ with
  | nil =>
    rw [List.append_nil, ← List.nil_append zs₂, ← heq]
    exact h
  | cons z zs₁ =>
    obtain ⟨rfl, hnil⟩ := List.cons.inj heq
    obtain ⟨rfl, rfl⟩ := List.append_eq_nil_iff.mp hnil.symm
    exact h'

theorem Settled.relabel (h : Settled cfg m₀ xs r) (hrt : r'.rt = r.rt) (hcfg : r'.cfg = r.cfg) :
    Settled cfg m₀ xs r' :=
  ⟨h.rt.trans hrt.symm, hcfg.trans h.config, h.fresh, h.recent, h.stamped⟩

theorem Settled.cut (h : Settled cfg m₀ xs r) : Cut cfg m₀ xs ys :=
  ⟨fun _ => h.recent, .inl h.fresh⟩

/-- Effects that assign nothing and open nothing, and close the gate only
when the lease is not held. -/
theorem Settled.mild (h : Settled cfg m₀ xs r) (hmild : Mild (plain ys))
    (hstill : r.rt.held = true → Still (plain ys)) : Settled cfg m₀ (xs ++ ys) r := by
  have hrt : runtimeAt (xs ++ ys) = runtimeAt xs := by
    rw [runtimeAt_append, assigned_mild hmild]
  have hmark : markerAt m₀ (xs ++ ys) = markerAt m₀ xs ∨
      r.rt.held = false ∧ markerAt m₀ (xs ++ ys) = none := by
    rw [markerAt_append]
    cases hheld : r.rt.held with
    | true => exact .inl (markerAt_calm (hstill hheld).calm)
    | false =>
      rcases markerAt_shut (m := markerAt m₀ xs) hmild.shut with heq | heq
      · exact .inl heq
      · exact .inr ⟨rfl, heq⟩
  refine ⟨hrt.trans h.rt, h.config, fun hheld hne => ?_, fun c hc => ?_, fun c hc => ?_⟩
  · rw [hrt] at hheld hne ⊢
    rcases hmark with heq | ⟨hlost, -⟩
    · rw [heq]
      exact h.fresh hheld hne
    · rw [h.rt, hlost] at hheld
      cases hheld
  · rcases hmark with heq | ⟨-, heq⟩
    · rw [heq] at hc
      obtain ⟨s, hexp, hasked, hle⟩ := h.recent c hc
      exact ⟨s, by rw [hrt]; exact hexp, hasked.append, hle⟩
    · rw [heq] at hc
      cases hc
  · rcases hmark with heq | ⟨-, heq⟩
    · rw [heq] at hc
      obtain ⟨x, hx, hxc⟩ := h.stamped c hc
      exact ⟨x, List.mem_append_left _ hx, hxc⟩
    · rw [heq] at hc
      cases hc

theorem Settled.through_mild (h : Settled cfg m₀ xs r) (hmild : Mild (plain ys))
    (hstill : r.rt.held = true → Still (plain ys)) : Through cfg m₀ xs ys post := by
  intro ys₁ ys₂ heq
  subst heq
  rw [plain_append] at hmild hstill
  exact (h.mild (mild_append.mp hmild).1 fun hheld => (still_append.mp (hstill hheld)).1).cut

/-- The assignment with which a lease is given up. -/
theorem Settled.lose {t : Time} (h : Settled cfg m₀ xs r) (hrt : r'.rt = { r.rt with held := false })
    (hcfg : r'.cfg = r.cfg) : Settled cfg m₀ (xs ++ [(t, ⟨.assign r'.rt, ()⟩)]) r' := by
  have hnow : runtimeAt (xs ++ [(t, ⟨.assign r'.rt, ()⟩)]) = r'.rt := by
    rw [runtimeAt_append]
    rfl
  have hmark : markerAt m₀ (xs ++ [(t, ⟨.assign r'.rt, ()⟩)]) = markerAt m₀ xs := by
    rw [markerAt_append]
    rfl
  refine ⟨hnow, hcfg.trans h.config, fun hheld => ?_, fun c hc => ?_, fun c hc => ?_⟩
  · rw [hnow, hrt] at hheld
    cases hheld
  · rw [hmark] at hc
    obtain ⟨s, hexp, hasked, hle⟩ := h.recent c hc
    rw [h.rt] at hexp
    refine ⟨s, ?_, hasked.append, hle⟩
    rw [hnow, hrt]
    exact hexp
  · rw [hmark] at hc
    obtain ⟨x, hx, hxc⟩ := h.stamped c hc
    exact ⟨x, List.mem_append_left _ hx, hxc⟩

/-! ## A confirmation -/

theorem calm_of_sets {exp : Time} (h : ∀ e ∈ evs, Sets r exp e) : Calm evs := by
  intro e he
  rcases h e he with ⟨t, rfl⟩ | ⟨rt, rfl, -⟩
  · exact ⟨rfl, rfl⟩
  · exact ⟨rfl, rfl⟩

theorem assigned_sets {exp : Time} {rt : Runtime} (h : ∀ e ∈ evs, Sets r exp e)
    (hrt : rt.expiresAt = r.rt.expiresAt ∨ rt.expiresAt = exp) :
    (assigned rt evs).expiresAt = r.rt.expiresAt ∨ (assigned rt evs).expiresAt = exp := by
  induction evs generalizing rt with
  | nil => exact hrt
  | cons e evs ih =>
    obtain ⟨he, hevs⟩ := List.forall_mem_cons.mp h
    rcases he with ⟨t, rfl⟩ | ⟨rt', rfl, hrt'⟩
    · exact ih hevs hrt
    · exact ih hevs hrt'

/-- The effects of a confirmation after its check at the instant `c`: the
request was started at `s`, and `B` sets the deadline, `C` writes files
and `w` is the marker. -/
structure Confirming (cfg : Config) (m₀ : Option Time) (xs : List Stamped) (r : Renewer)
    (s c : Time) (B C : List Stamped) (w : Stamped) (r' : Renewer) : Prop where
  settled : Settled cfg m₀ xs r
  asked : Asked cfg s xs
  checked : ∃ x ∈ xs, x.1 = c
  started : s ≤ c
  bounded : c ≤ s + cfg.heartbeatInterval
  older : ∀ m, markerAt m₀ xs = some m → m ≤ s
  stamps : ∀ x ∈ B ++ (C ++ [w]), x.1 = c
  sets : ∀ e ∈ plain B, Sets r (s + cfg.ttl) e
  assigned : assigned r.rt (plain B) = r'.rt
  opens : ∀ x ∈ C, x.2.1.opens = true
  marker : w.2 = ⟨.writeFileAtomic .healthy "ok\n", .ok ()⟩
  expires : r'.rt.expiresAt = s + cfg.ttl
  config : r'.cfg = cfg

section Confirming

variable {s c : Time} {B C : List Stamped} {w : Stamped}

/-- The deadline is being set, and the marker is still the old one. -/
theorem Confirming.recent_sets (h : Confirming cfg m₀ xs r s c B C w r')
    (hhb : 0 ≤ cfg.heartbeatInterval) {B₁ B₂ : List Stamped} (heq : B = B₁ ++ B₂) :
    Recent cfg m₀ (xs ++ B₁) := by
  have hsets : ∀ e ∈ plain B₁, Sets r (s + cfg.ttl) e := by
    intro e he
    refine h.sets e ?_
    rw [heq, plain_append]
    exact List.mem_append_left _ he
  intro m hm
  rw [markerAt_append, markerAt_calm (calm_of_sets hsets)] at hm
  have hexp := assigned_sets hsets (.inl rfl)
  rw [runtimeAt_append, h.settled.rt]
  rcases hexp with hexp | hexp
  · obtain ⟨s', hs', hasked, hle⟩ := h.settled.recent m hm
    rw [h.settled.rt] at hs'
    exact ⟨s', hexp.trans hs', hasked.append, hle⟩
  · have hle := h.older m hm
    exact ⟨s, hexp, h.asked.append, Int.le_trans hle (Int.le_add_of_nonneg_right hhb)⟩

theorem Confirming.opens_marker (h : Confirming cfg m₀ xs r s c B C w r') {D E : List Stamped}
    (heq : C ++ [w] = D ++ E) : ∀ x ∈ D, x.2.1.opens = true ∧ x.1 = c := by
  intro x hx
  have hmem : x ∈ C ++ [w] := by
    rw [heq]
    exact List.mem_append_left _ hx
  refine ⟨?_, h.stamps x (List.mem_append_right _ hmem)⟩
  rcases List.mem_append.mp hmem with hx | hx
  · exact h.opens x hx
  · rw [List.mem_singleton.mp hx, h.marker]
    rfl

theorem Confirming.runtime (h : Confirming cfg m₀ xs r s c B C w r') {D E : List Stamped}
    (heq : C ++ [w] = D ++ E) : runtimeAt (xs ++ (B ++ D)) = r'.rt := by
  rw [runtimeAt_append, plain_append, assigned_append, h.settled.rt, h.assigned]
  refine assigned_opens fun e he => ?_
  obtain ⟨x, hx, rfl⟩ := List.mem_map.mp he
  exact (h.opens_marker heq x hx).1

/-- The deadline is set, and the marker is the old one or the new one. -/
theorem Confirming.recent_opens (h : Confirming cfg m₀ xs r s c B C w r')
    (hhb : 0 ≤ cfg.heartbeatInterval) {D E : List Stamped} (heq : C ++ [w] = D ++ E) :
    Recent cfg m₀ (xs ++ (B ++ D)) := by
  intro m hm
  have hmark : m ≤ s + cfg.heartbeatInterval := by
    rw [markerAt_append, markerAt_append, markerAt_calm (calm_of_sets h.sets)] at hm
    rcases markerAt_opens (m := markerAt m₀ xs) (h.opens_marker heq) with hd | hd
    · rw [hd] at hm
      exact Int.le_trans (h.older m hm) (Int.le_add_of_nonneg_right hhb)
    · rw [hd] at hm
      cases hm
      exact h.bounded
  exact ⟨s, by rw [h.runtime heq]; exact h.expires, h.asked.append, hmark⟩

theorem Confirming.markerAt_end (h : Confirming cfg m₀ xs r s c B C w r') :
    markerAt m₀ (xs ++ (B ++ (C ++ [w]))) = some c := by
  have hwc : w.1 = c := h.stamps w (by simp)
  obtain ⟨t, e⟩ := w
  have he : e = ⟨.writeFileAtomic .healthy "ok\n", .ok ()⟩ := h.marker
  rw [← List.append_assoc, ← List.append_assoc, markerAt_append, he]
  exact congrArg some hwc

/-- A confirmation leaves things settled. -/
theorem Confirming.settled_end (h : Confirming cfg m₀ xs r s c B C w r')
    (hhb : 0 ≤ cfg.heartbeatInterval) : Settled cfg m₀ (xs ++ (B ++ (C ++ [w]))) r' := by
  have hrt := h.runtime (D := C ++ [w]) (E := []) (List.append_nil _).symm
  refine ⟨hrt, h.config, fun _ _ => ?_, h.recent_opens hhb (List.append_nil _).symm, fun m hm => ?_⟩
  · refine ⟨c, h.markerAt_end, ?_⟩
    rw [hrt, h.expires]
    exact Int.add_le_add_right h.started _
  · rw [h.markerAt_end] at hm
    cases hm
    obtain ⟨x, hx, hxc⟩ := h.checked
    exact ⟨x, List.mem_append_left _ hx, hxc⟩

/-- Wherever a confirmation is cut, the rest of it is still to come at the
same instant. -/
theorem Confirming.through (h : Confirming cfg m₀ xs r s c B C w r')
    (hhb : 0 ≤ cfg.heartbeatInterval) : Through cfg m₀ xs (B ++ (C ++ [w])) post := by
  intro zs₁ zs₂ heq
  refine ⟨fun _ => ?_, ?_⟩
  · rcases List.append_eq_append_iff.mp heq with ⟨D, rfl, hrest⟩ | ⟨B₂, hB, -⟩
    · exact h.recent_opens hhb hrest
    · exact h.recent_sets hhb hB
  · cases zs₂ with
    | nil =>
      rw [List.append_nil] at heq
      rw [← heq]
      exact .inl (h.settled_end hhb).fresh
    | cons y zs₂ =>
      obtain ⟨x, hx, hxc⟩ := h.checked
      have hy : y.1 = c := h.stamps y (by rw [heq]; simp)
      exact .inr ⟨x, List.mem_append_left _ hx, y, by simp, Int.le_of_eq (hy.trans hxc.symm)⟩

end Confirming

/-! ## A turn -/

theorem plain_eq_append {evs evs' : List Told} (h : plain xs = evs ++ evs') :
    ∃ xs₁ xs₂, xs = xs₁ ++ xs₂ ∧ plain xs₁ = evs ∧ plain xs₂ = evs' := List.map_eq_append_iff.mp h

theorem plain_eq_cons {e : Told} (h : plain xs = e :: evs) :
    ∃ t xs', xs = (t, e) :: xs' ∧ plain xs' = evs := by
  obtain ⟨⟨t, e'⟩, xs', rfl, rfl, hxs⟩ := List.map_eq_cons_iff.mp h
  exact ⟨t, xs', rfl, hxs⟩

theorem Timed.le (ht : Timed (xs ++ ys)) {x y : Stamped} (hx : x ∈ xs) (hy : y ∈ ys) : x.1 ≤ y.1 :=
  (List.pairwise_append.mp ht.forward).2.2 x hx y hy

/-- The two readings of a request are its start. -/
theorem Grant.asked {s d : Time} (h : Grant r s d (plain xs)) (hcfg : r.cfg = cfg)
    (ht : Timed (pre ++ xs ++ post)) :
    Asked cfg s xs ∧ d ≤ s + cfg.heartbeatInterval ∧ ∃ x ∈ xs, x.1 = s := by
  obtain ⟨evs, a, b, endpoint, id, resp, res, heq, hstart, hend, hdec, hacq⟩ := h
  obtain ⟨xs₁, xs₂, rfl, rfl, hreq⟩ := plain_eq_append heq
  obtain ⟨t₁, xs₃, rfl, hreq₁⟩ := plain_eq_cons hreq
  obtain ⟨t₂, xs₄, rfl, hreq₂⟩ := plain_eq_cons hreq₁
  obtain ⟨t₃, xs₅, rfl, -⟩ := plain_eq_cons hreq₂
  obtain rfl : a = t₁ := ht.reads (t₁, ⟨.now, a⟩) (by simp) a rfl
  obtain rfl : b = t₂ := ht.reads (t₂, ⟨.now, b⟩) (by simp) b rfl
  have htick : TickReads ((pre ++ xs₁) ++ (a, ⟨.now, a⟩) :: (b, ⟨.now, b⟩) ::
      (t₃, ⟨.post r.cfg.key endpoint, id⟩) :: (xs₅ ++ post)) := by simpa using ht.tick
  have hone : a = b := htick.of_append rfl rfl rfl
  subst hone
  have hs : s = a ∧ d ≤ a + r.cfg.heartbeatInterval := hstart.elim (fun h => h) fun h => h
  obtain ⟨rfl, hd⟩ := hs
  subst hcfg
  exact ⟨⟨plain xs₁, [], endpoint, id, resp, res, r.rt.holder, r.rt.token, by simpa using heq, hend,
    hdec, hacq⟩, hd, (s, ⟨.now, s⟩), by simp, rfl⟩

theorem not_check_of_sets {exp : Time} {x : Stamped} (h : Sets r exp x.2) :
    x.2.1.isCheck = false := by
  rcases h with ⟨t, heq⟩ | ⟨rt, heq, -⟩
  · rw [heq]
    rfl
  · rw [heq]
    rfl

theorem not_check_of_opens {o : HelperOp} (h : o.opens = true) : o.isCheck = false := by
  cases o with
  | rpcCtxErr d => cases h
  | _ => rfl

theorem mild_checked {A : List Stamped} {c d : Time} (h : Mild (plain A)) :
    Mild (plain (A ++ [(c, ⟨.rpcCtxErr d, false⟩)])) := by
  rw [plain_append]
  exact mild_append.mpr ⟨h, Still.mild (by simp [plain])⟩

theorem still_checked {A : List Stamped} {c d : Time} (h : Still (plain A)) :
    Still (plain (A ++ [(c, ⟨.rpcCtxErr d, false⟩)])) := by
  rw [plain_append]
  exact still_append.mpr ⟨h, by simp [plain]⟩

/-- The effects of a confirming turn. -/
theorem Settled.confirming {A B C : List Stamped} {s d c t : Time} (h : Settled cfg m₀ pre r)
    (hcfg : r'.cfg = r.cfg) (hexp : r'.rt.expiresAt = s + r.cfg.ttl) (mild : Mild (plain A))
    (still : r.rt.held = true → Still (plain A)) (grant : Grant r s d (plain A))
    (sets : ∀ e ∈ plain B, Sets r (s + r.cfg.ttl) e)
    (hassigned : assigned r.rt (plain B) = r'.rt) (opens : ∀ e ∈ plain C, e.1.opens = true)
    (ht : Timed (pre ++ (A ++ [(c, ⟨.rpcCtxErr d, false⟩)]) ++ (B ++ (C ++ [(t, marked)])) ++ post)) :
    Confirming cfg m₀ (pre ++ (A ++ [(c, ⟨.rpcCtxErr d, false⟩)])) r s c B C (t, marked) r' := by
  have hmild : Mild (plain (A ++ [(c, ⟨.rpcCtxErr d, false⟩)])) := mild_checked mild
  have hsettled := h.mild hmild fun hheld => still_checked (still hheld)
  have htA : Timed
      (pre ++ A ++ ([(c, ⟨.rpcCtxErr d, false⟩)] ++ (B ++ (C ++ [(t, marked)])) ++ post)) := by
    simpa using ht
  obtain ⟨hasked, hd, x, hx, hxs⟩ := grant.asked h.config htA
  have hle : c ≤ d := ht.punctual (c, ⟨.rpcCtxErr d, false⟩) (by simp) d rfl
  have hmark : t = c := by
    have hchecks : MarksAtCheck none ((pre ++ A) ++ (c, ⟨.rpcCtxErr d, false⟩) ::
        ((B ++ C) ++ (t, marked) :: post)) := by simpa using ht.mark
    refine hchecks.of_append rfl (fun z hz => ?_) rfl
    rcases List.mem_append.mp hz with hz | hz
    · exact not_check_of_sets (sets z.2 (List.mem_map_of_mem hz))
    · exact not_check_of_opens (opens z.2 (List.mem_map_of_mem hz))
  refine ⟨hsettled, hasked.append.prepend, ⟨(c, ⟨.rpcCtxErr d, false⟩), by simp, rfl⟩, ?_,
    Int.le_trans hle hd, fun m hm => ?_, fun y hy => ?_, ?_, hassigned, ?_, rfl, ?_,
    hcfg.trans h.config⟩
  · rw [← hxs]
    exact htA.le (List.mem_append_right _ hx) (y := (c, ⟨.rpcCtxErr d, false⟩)) (by simp)
  · -- a marker from before was written before the request started
    rw [markerAt_append] at hm
    rcases markerAt_shut (m := markerAt m₀ pre) hmild.shut with heq | heq
    · rw [heq] at hm
      obtain ⟨y, hy, rfl⟩ := h.stamped m hm
      rw [← hxs]
      have htpre : Timed (pre ++ (A ++ ([(c, ⟨.rpcCtxErr d, false⟩)] ++ (B ++ (C ++ [(t, marked)])) ++
          post))) := by simpa using ht
      exact htpre.le hy (List.mem_append_left _ hx)
    · rw [heq] at hm
      cases hm
  · have hlo : c ≤ y.1 := by
      rw [List.append_assoc] at ht
      exact ht.le (x := (c, ⟨.rpcCtxErr d, false⟩)) (by simp) (List.mem_append_left _ hy)
    have hhi : y.1 ≤ c := by
      rw [← List.append_assoc] at hy
      rcases List.mem_append.mp hy with hy | hy
      · have hlast : Timed ((pre ++ (A ++ [(c, ⟨.rpcCtxErr d, false⟩)]) ++ (B ++ C)) ++
            ([(t, marked)] ++ post)) := by simpa using ht
        rw [← hmark]
        exact hlast.le (List.mem_append_right _ hy) (y := (t, marked)) (by simp)
      · rw [List.mem_singleton.mp hy]
        exact Int.le_of_eq hmark
    exact Int.le_antisymm hhi hlo
  · rw [← h.config]
    exact sets
  · exact fun y hy => opens y.2 (List.mem_map_of_mem hy)
  · rw [← h.config]
    exact hexp

/-- One turn after the first. -/
theorem Settled.turn (h : Settled cfg m₀ pre r) (hshape : Shape r (plain xs) r')
    (hcfg : r'.cfg = r.cfg) (ht : Timed (pre ++ xs ++ post)) (hhb : 0 ≤ cfg.heartbeatInterval) :
    Through cfg m₀ pre xs post ∧ Settled cfg m₀ (pre ++ xs) r' := by
  have hw : Writes (plain xs) := by
    have hall := ht.writes
    rw [plain_append, plain_append] at hall
    exact hall.of_append.1.of_append.2
  generalize hxs : plain xs = evs at hshape hw
  cases hshape with
  | quiet same mild still =>
    rw [← hxs] at mild still
    exact ⟨h.through_mild mild still, (h.mild mild still).relabel same hcfg⟩
  | lost hlost before after =>
    obtain ⟨xs₁, xs₂, rfl, rfl, hrest⟩ := plain_eq_append hxs
    obtain ⟨t, xs₃, rfl, rfl⟩ := plain_eq_cons hrest
    have h₁ := h.mild before.mild fun _ => before
    have h₂ := h₁.lose (t := t) hlost hcfg
    have hfalse : r'.rt.held = true → Still (plain xs₃) := by
      rw [hlost]
      intro hheld
      cases hheld
    have hbefore : Through cfg m₀ pre xs₁ (([(t, ⟨.assign r'.rt, ()⟩)] ++ xs₃) ++ post) :=
      h.through_mild before.mild fun _ => before
    have hassign : Through cfg m₀ (pre ++ xs₁) [(t, ⟨.assign r'.rt, ()⟩)] (xs₃ ++ post) :=
      .single h₁.cut h₂.cut
    refine ⟨hbefore.append (hassign.append (h₂.through_mild after hfalse)), ?_⟩
    have h₃ := h₂.mild after hfalse
    simpa using h₃
  | @confirmed A B D s d _ hheld hexp mild still grant _ _ sets hassigned hopens hmarks =>
    obtain ⟨C, rfl⟩ := hmarks hw.of_append.2.of_cons.of_append.2
    have opens : ∀ e ∈ C, e.1.opens = true := (List.forall_mem_append.mp hopens).1
    obtain ⟨xsA, xs₁, rfl, rfl, hxs₁⟩ := plain_eq_append hxs
    obtain ⟨c, xs₂, rfl, hxs₂⟩ := plain_eq_cons hxs₁
    obtain ⟨xsB, xs₃, rfl, rfl, hxs₃⟩ := plain_eq_append hxs₂
    obtain ⟨xsC, xs₄, rfl, rfl, hxs₄⟩ := plain_eq_append hxs₃
    obtain ⟨t, xs₅, rfl, hxs₅⟩ := plain_eq_cons hxs₄
    cases List.map_eq_nil_iff.mp hxs₅
    rw [List.append_cons] at ht ⊢
    rw [← List.append_assoc pre] at ht
    have hbefore : Through cfg m₀ pre (xsA ++ [(c, ⟨.rpcCtxErr d, false⟩)])
        ((xsB ++ (xsC ++ [(t, marked)])) ++ post) :=
      h.through_mild (mild_checked mild) fun hheld => still_checked (still hheld)
    have hconfirm := h.confirming hcfg hexp mild still grant sets hassigned opens ht
    refine ⟨hbefore.append (hconfirm.through hhb), ?_⟩
    rw [← List.append_assoc]
    exact hconfirm.settled_end hhb

/-! ## A run -/

theorem Through.nil (h : Cut cfg m₀ pre post) : Through cfg m₀ pre [] post := by
  intro zs₁ zs₂ heq
  obtain ⟨rfl, rfl⟩ := List.append_eq_nil_iff.mp heq.symm
  rw [List.append_nil]
  exact h

theorem Settled.turns {ts : List Turn} (h : Settled cfg m₀ pre r) (hts : Turns r ts r')
    (hnext : ∀ t ∈ ts, t.handler ≠ .start) (hxs : plain xs = told ts)
    (ht : Timed (pre ++ xs ++ post)) (hhb : 0 ≤ cfg.heartbeatInterval) :
    Through cfg m₀ pre xs post ∧ Settled cfg m₀ (pre ++ xs) r' := by
  induction hts generalizing pre xs with
  | nil r =>
    cases List.map_eq_nil_iff.mp hxs
    rw [List.append_nil]
    exact ⟨.nil h.cut, h⟩
  | @cons handler r r₁ r' evs ts htakes hrest ih =>
    obtain ⟨hhandler, hrestNext⟩ := List.forall_mem_cons.mp hnext
    rw [told_cons] at hxs
    obtain ⟨xs₁, xs₂, rfl, rfl, hxs₂⟩ := plain_eq_append hxs
    have ht₁ : Timed (pre ++ xs₁ ++ (xs₂ ++ post)) := by simpa using ht
    have ht₂ : Timed ((pre ++ xs₁) ++ xs₂ ++ post) := by simpa using ht
    obtain ⟨hcfg, hshape⟩ := htakes.shape hhandler
    obtain ⟨hthrough, hsettled⟩ := h.turn hshape hcfg ht₁ hhb
    obtain ⟨hthrough', hsettled'⟩ := ih hsettled hrestNext hxs₂ ht₂
    refine ⟨hthrough.append hthrough', ?_⟩
    rw [← List.append_assoc]
    exact hsettled'

/-- The effects of the first turn. -/
def Starts (evs : List Told) : Prop :=
  ∀ e ∈ evs, e.1.opens = false ∧ ∀ rt, e.1 = .assign rt → rt.expiresAt = zeroTime

theorem starts_of_ran (hload : (Renewer.new cfg).loadHandoff.Ran evs r) (hmild : Mild evs') :
    Starts (evs ++ evs') := by
  refine List.forall_mem_append.mpr ⟨fun e he => ⟨loadHandoff_shut hload e he, ?_⟩, fun e he => ?_⟩
  · obtain ⟨-, hzero, holder, text, last, rfl, ⟨rfl, -⟩ | rfl⟩ := loadHandoff_ran hload
    all_goals
      simp only [List.cons_append, List.nil_append, List.mem_cons, List.not_mem_nil, or_false] at he
      rcases he with rfl | rfl | rfl | rfl | rfl <;> rintro rt ⟨⟩ <;> first | rfl | exact hzero
  · refine ⟨(hmild e he).1, fun rt heq => ?_⟩
    have hno := (hmild e he).2
    rw [heq] at hno
    cases hno

theorem Starts.expiresAt {rt : Runtime} (h : Starts evs) (hrt : rt.expiresAt = zeroTime) :
    (assigned rt evs).expiresAt = zeroTime := by
  induction evs generalizing rt with
  | nil => exact hrt
  | cons e evs ih =>
    obtain ⟨he, hevs⟩ := List.forall_mem_cons.mp h
    obtain ⟨o, a⟩ := e
    cases o with
    | assign rt' => exact ih hevs (he.2 rt' rfl)
    | _ => exact ih hevs hrt

/-- Once the marker is gone and nothing opens the gate, it stays gone. -/
theorem markerAt_swept {m : Option Time} (h : Shut (plain xs)) (hswept : m = none ∨ Swept xs) :
    markerAt m xs = none := by
  rcases hswept with rfl | ⟨x, hx, hrem⟩
  · exact (markerAt_shut h).elim id id
  obtain ⟨xs₁, xs₂, rfl⟩ := List.append_of_mem hx
  obtain ⟨t, e⟩ := x
  have hgone : markerAt m (xs₁ ++ [(t, e)]) = none := by
    rw [markerAt_append]
    rcases hrem with heq | heq
    · cases heq
      rfl
    · cases heq
      rfl
  rw [List.append_cons, markerAt_append, hgone]
  rw [List.append_cons, plain_append] at h
  exact (markerAt_shut (shut_append.mp h).2).elim id id

theorem Starts.through (h : Starts (plain xs)) : Through cfg m₀ [] xs post := by
  intro xs₁ xs₂ heq
  subst heq
  rw [plain_append] at h
  have h₁ : Starts (plain xs₁) := fun e he => h e (List.mem_append_left _ he)
  refine ⟨fun hswept c hc => ?_, .inl fun _ hne => absurd (h₁.expiresAt rfl) hne⟩
  rw [List.nil_append] at hswept hc
  rw [markerAt_swept (fun e he => (h₁ e he).1) hswept] at hc
  cases hc

/-- The first turn loads the handoff and removes the marker. -/
theorem Takes.first_settled (h : Takes .start (.new cfg) (plain xs) r) :
    Starts (plain xs) ∧ Settled cfg m₀ xs r := by
  generalize hxs : plain xs = evs at h
  cases h with
  | @start _ r₁ _ evs₁ evs₂ hload hhold =>
    obtain ⟨hcfg₁, hzero, holder, text, last, hevs, hlast⟩ := loadHandoff_ran hload
    have hassigned : assigned {} evs₁ = r₁.rt := by
      rcases hlast with ⟨rfl, hrt⟩ | rfl
      · rw [hevs, hrt]
        rfl
      · rw [hevs, assigned_concat]
    obtain ⟨hrt, hcfg, hmild, -⟩ := hold_ran hhold
    have hstarts : Starts (evs₁ ++ evs₂) := starts_of_ran hload hmild
    have hruntime : runtimeAt xs = r.rt := by
      rw [runtimeAt, hxs, assigned_append, hassigned, assigned_mild hmild, hrt]
    have hswept : Swept xs := by
      obtain ⟨e, he, hrem⟩ := hold_removed hhold
      have hmem : e ∈ plain xs := by
        rw [hxs]
        exact List.mem_append_right _ he
      obtain ⟨x, hx, rfl⟩ := List.mem_map.mp hmem
      exact ⟨x, hx, hrem⟩
    have hshut : Shut (plain xs) := by
      rw [hxs]
      exact fun e he => (hstarts e he).1
    have hnone : markerAt m₀ xs = none := markerAt_swept hshut (.inr hswept)
    refine ⟨hstarts, hruntime, hcfg.trans hcfg₁, ?_, ?_, ?_⟩
    · intro _ hne
      rw [hruntime, hrt] at hne
      exact absurd hzero hne
    · intro c hc
      rw [hnone] at hc
      cases hc
    · intro c hc
      rw [hnone] at hc
      cases hc

/-- Wherever a run is cut. -/
theorem run_cut {n : Nat} {res : Option (Except Err Unit)}
    (h : (Renewer.run n (.new cfg)).Ran (plain xs) res) (ht : Timed xs)
    (hhb : 0 ≤ cfg.heartbeatInterval) : Through cfg m₀ [] xs [] := by
  rcases run_cases h with ⟨evs₁, evs₂, r₁, r₂, e, _, heq, hload, hhold, -⟩ |
    ⟨ts, r, tail, hcourse, hlen, heq, htail, -⟩
  · apply Starts.through
    rw [heq]
    exact starts_of_ran hload (hold_ran hhold).2.2.1
  · have hne : ts ≠ [] := by
      rintro rfl
      cases hlen
    obtain ⟨evs₀, r₀, rest, rfl, hstart, hrest, hnext⟩ := hcourse.cases hne
    rw [told_cons] at heq
    obtain ⟨xs₁, xs₂, rfl, hxs₁, rfl⟩ := plain_eq_append heq
    obtain ⟨xs₀, xs₃, rfl, rfl, hxs₃⟩ := plain_eq_append hxs₁
    obtain ⟨hstarts, hsettled⟩ : Starts (plain xs₀) ∧ Settled cfg m₀ xs₀ r₀ := hstart.first_settled
    have hfirst : Through cfg m₀ [] xs₀ (xs₃ ++ (xs₂ ++ [])) := hstarts.through
    have htimed : Timed (xs₀ ++ xs₃ ++ (xs₂ ++ [])) := by simpa using ht
    obtain ⟨hturns, hsettled'⟩ := hsettled.turns hrest hnext hxs₃ htimed hhb
    exact (hfirst.append hturns).append (hsettled'.through_mild htail.mild fun _ => htail)

/-- The freshness bound is safe in both directions. Take any run of the
sidecar whose marker writes succeed at the instant of their late-response
check, with the start and the deadline of a request read at one instant,
and the TTL as the bound. At every instant `T` of it, between what was
done up to `T` and what is done later, if the sidecar holds with its
deadline to come then the marker passes. And wherever it is stopped, a
marker that passes at any later `T` means that at most the TTL and one
heartbeat have gone by since the start of the last confirmed request: from
the beginning, if there is no marker there, and otherwise once the first
Hold has taken it away. -/
theorem freshness_bound {n : Nat} {res : Option (Except Err Unit)}
    (h : (Renewer.run n (.new cfg)).Ran (plain xs) res) (ht : Timed xs)
    (hpos : 0 < cfg.heartbeatInterval) (hlt : cfg.heartbeatInterval < cfg.ttl)
    (m₀ : Option Time) :
    (∀ xs₁ xs₂ T, xs = xs₁ ++ xs₂ → (∀ x ∈ xs₁, x.1 ≤ T) → (∀ y ∈ xs₂, T < y.1) →
      (runtimeAt xs₁).held = true → T < (runtimeAt xs₁).expiresAt →
      (evaluateMarker (statOf (markerAt m₀ xs₁)) T cfg.ttl).verdict = .ok) ∧
    (∀ xs₁ xs₂ T, xs = xs₁ ++ xs₂ → (∀ x ∈ xs₁, x.1 ≤ T) → m₀ = none ∨ Swept xs₁ →
      (evaluateMarker (statOf (markerAt m₀ xs₁)) T cfg.ttl).verdict = .ok →
      ∃ s, (runtimeAt xs₁).expiresAt = s + cfg.ttl ∧ Asked cfg s xs₁ ∧
        T - s ≤ cfg.ttl + cfg.heartbeatInterval) := by
  have httl : 0 < cfg.ttl := Int.lt_trans hpos hlt
  have hcut : Through cfg m₀ [] xs [] := run_cut h ht (Int.le_of_lt hpos)
  refine ⟨?_, ?_⟩
  · intro xs₁ xs₂ T heq hpast hfuture hheld hT
    rcases (hcut xs₁ xs₂ heq).fresh with hfresh | ⟨x, hx, y, hy, hle⟩
    · obtain ⟨x, hx⟩ : ∃ x, x ∈ xs₁ := by
        cases xs₁ with
        | nil => cases hheld
        | cons x _ => exact ⟨x, List.mem_cons_self⟩
      have hzero : zeroTime ≤ T :=
        Int.le_trans (ht.epoch x (by rw [heq]; exact List.mem_append_left _ hx)) (hpast x hx)
      have hne : (runtimeAt xs₁).expiresAt ≠ zeroTime :=
        fun hz => absurd (hz ▸ hT) (Int.not_lt.mpr hzero)
      obtain ⟨c, hc, hle⟩ := hfresh hheld hne
      refine (evaluateMarker_ok_iff httl).mpr ⟨c, ?_, ?_⟩
      · exact congrArg statOf hc
      · exact Int.le_trans (Int.le_of_lt hT) hle
    · -- nothing more is done at `T`
      rw [List.append_nil] at hy
      exact absurd (hfuture y hy) (Int.not_lt.mpr (Int.le_trans hle (hpast x hx)))
  · intro xs₁ xs₂ T heq _ hswept hok
    obtain ⟨c, hstat, hle⟩ := (evaluateMarker_ok_iff httl).mp hok
    have hmarker : markerAt m₀ xs₁ = some c := by
      generalize markerAt m₀ xs₁ = m at hstat
      cases m with
      | none => cases hstat
      | some c' => cases hstat; rfl
    obtain ⟨s, hexpires, hasked, hrecent⟩ := (hcut xs₁ xs₂ heq).recent hswept c hmarker
    refine ⟨s, hexpires, hasked, ?_⟩
    have hsum := Int.le_trans hle (Int.add_le_add_right hrecent cfg.ttl)
    exact Int.sub_left_le_of_le_add (by rw [Int.add_comm cfg.ttl, ← Int.add_assoc]; exact hsum)

/-- The handoff is confirmed one second after the start of the request. -/
def confirmedAt : List Stamped :=
  (List.replicate 10 0 ++ List.replicate 9 second).zip confirmedRun

theorem freshness_bound_confirmed :
    (evaluateMarker (statOf (markerAt (some 0) confirmedAt)) (9 * second) probed.ttl).verdict = .ok ∧
    ∃ s, (runtimeAt confirmedAt).expiresAt = s + probed.ttl ∧ Asked probed s confirmedAt ∧
      11 * second - s ≤ probed.ttl + probed.heartbeatInterval := by
  have hran : (Renewer.run 1 (.new probed)).Ran (plain confirmedAt) (some (.ok ())) :=
    Prog.ran_of_feed (by decide)
  have htimed : Timed confirmedAt :=
    { forward := by decide, epoch := by decide, reads := by decide
      punctual := by decide, tick := by decide
      writes := by decide, mark := by decide }
  have hswept : Swept confirmedAt :=
    ⟨(0, ⟨.remove .healthy, .ok ()⟩), List.mem_iff_get.mpr ⟨⟨5, by decide⟩, rfl⟩, .inl rfl⟩
  obtain ⟨hfresh, hrecent⟩ := freshness_bound hran htimed (by decide) (by decide) (some 0)
  refine ⟨?_, ?_⟩
  · exact hfresh confirmedAt [] (9 * second) (List.append_nil _).symm (by decide)
      (by decide) (by decide) (by decide)
  · exact hrecent confirmedAt [] (11 * second) (List.append_nil _).symm (by decide)
      (.inr hswept) (by decide)

end Berth.Acquire
