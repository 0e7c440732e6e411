/-
Berth.Broker.LoopTheorems — how long the token broker waits.

A run is read off its events: at each wait, what became of the refresh
before it (`log`). Refreshes and waits alternate (`rhythm`). The waits are
a function of these outcomes (`loop_waits`), and that function is compared
with the same delays in exact arithmetic. Doubling is exact, because a
product that wraps is not positive (`nextRetry_eq`). The difference for a
success is not: with a large skew it wraps to a long wait, also for a token
that has expired (`waits_exact_iff`).
-/
import Berth.Broker.Loop
import Mathlib.Algebra.Group.Int.Defs
import Mathlib.Algebra.Order.Group.Int

namespace Berth.Broker

open Berth.Checks Berth.Interleave Berth.Lease

/-! ## Outcomes -/

/-- What became of a refresh: it failed, or a token with this expiry was
written. The clock is read for an expiry that is not zero. -/
inductive Outcome where
  | failed
  | refreshed (expiry now : Time)
  deriving DecidableEq

/-- The outcome after one more event. -/
def Outcome.after (o : Outcome) : Event BrokerSig → Outcome
  | ⟨.token _, .ok token⟩ => .refreshed token.expiry token.expiry
  | ⟨.token _, .error _⟩ => .failed
  | ⟨.createTemp _ _, .error _⟩ => .failed
  | ⟨.writeString _ _, .error _⟩ => .failed
  | ⟨.chmod _ _, .error _⟩ => .failed
  | ⟨.close _, .error _⟩ => .failed
  | ⟨.rename _ _, .error _⟩ => .failed
  | ⟨.now, t⟩ =>
    match o with
    | .failed => .failed
    | .refreshed expiry _ => .refreshed expiry t
  | _ => o

/-- The waits of a run, each with the outcome of the refresh before it. -/
def log : Outcome → List (Event BrokerSig) → List (Outcome × Duration)
  | _, [] => []
  | o, ⟨.sleep d, _⟩ :: evs => (o, d) :: log o evs
  | o, e :: evs => log (o.after e) evs

/-- The outcome of `refreshToken`, by its answer. -/
def Outcome.ofResult : Except Err Token → Outcome
  | .ok token => .refreshed token.expiry token.expiry
  | .error _ => .failed

variable {lc : LoopConfig} {evs : List (Event BrokerSig)}

/-- Removing the temporary file waits for nothing. -/
theorem log_abandon {tmp : String} {e : Err} {r : Except Err Unit}
    (h : (abandon tmp e).Ran evs r) (rest : List (Event BrokerSig)) :
    r = .error e ∧ log .failed (evs ++ rest) = log .failed rest := by
  obtain ⟨removed, evs₁, rfl, h₁⟩ := Prog.Ran.of_perform h
  obtain ⟨rfl, rfl⟩ := h₁.of_ret
  exact ⟨rfl, rfl⟩

theorem log_writeTokenAtomic {path token : String} {o : Outcome} {r : Except Err Unit}
    (h : (writeTokenAtomic path token).Ran evs r) (rest : List (Event BrokerSig)) :
    log o (evs ++ rest) = log (if r = .ok () then o else .failed) rest := by
  obtain ⟨created, evs₁, rfl, h₁⟩ := Prog.Ran.of_perform h
  cases created with
  | error e =>
    obtain ⟨rfl, rfl⟩ := h₁.of_ret
    rfl
  | ok tmp =>
    obtain ⟨wrote, evs₂, rfl, h₂⟩ := Prog.Ran.of_perform h₁
    cases wrote with
    | error e =>
      obtain ⟨closed, evs₃, rfl, h₃⟩ := Prog.Ran.of_perform h₂
      obtain ⟨rfl, hlog⟩ := log_abandon h₃ rest
      cases closed <;> exact hlog
    | ok u =>
      obtain ⟨chmodded, evs₃, rfl, h₃⟩ := Prog.Ran.of_perform h₂
      cases chmodded with
      | error e =>
        obtain ⟨closed, evs₄, rfl, h₄⟩ := Prog.Ran.of_perform h₃
        obtain ⟨rfl, hlog⟩ := log_abandon h₄ rest
        cases closed <;> exact hlog
      | ok u =>
        obtain ⟨closed, evs₄, rfl, h₄⟩ := Prog.Ran.of_perform h₃
        cases closed with
        | error e =>
          obtain ⟨rfl, hlog⟩ := log_abandon h₄ rest
          exact hlog
        | ok u =>
          obtain ⟨renamed, evs₅, rfl, h₅⟩ := Prog.Ran.of_perform h₄
          cases renamed with
          | error e =>
            obtain ⟨rfl, hlog⟩ := log_abandon h₅ rest
            exact hlog
          | ok u =>
            obtain ⟨rfl, rfl⟩ := h₅.of_ret
            rfl

theorem log_refreshToken {o : Outcome} {r : Except Err Token} (h : (refreshToken lc).Ran evs r)
    (rest : List (Event BrokerSig)) :
    log o (evs ++ rest) = log (.ofResult r) rest := by
  obtain ⟨evs₁, evs₂, fetched, rfl, hfetch, h₁⟩ := Prog.Ran.of_bind h
  obtain ⟨answer, evs₃, rfl, hfetch₁⟩ := Prog.Ran.of_perform hfetch
  cases answer with
  | error e =>
    obtain ⟨rfl, rfl⟩ := hfetch₁.of_ret
    obtain ⟨rfl, rfl⟩ := h₁.of_ret
    rfl
  | ok token =>
    obtain ⟨rfl, rfl⟩ := hfetch₁.of_ret
    obtain ⟨evs₄, evs₅, wrote, rfl, hwrite, h₂⟩ := Prog.Ran.of_bind h₁
    have hlog := log_writeTokenAtomic (o := .refreshed token.expiry token.expiry) hwrite (evs₅ ++ rest)
    rw [← List.append_assoc] at hlog
    cases wrote with
    | error e =>
      obtain ⟨rfl, rfl⟩ := h₂.of_ret
      exact hlog
    | ok u =>
      obtain ⟨rfl, rfl⟩ := h₂.of_ret
      exact hlog

/-! ## Waits -/

/-- How long the loop waits after an outcome. -/
def Outcome.delay (lc : LoopConfig) (retry : Duration) : Outcome → Duration
  | .failed => retry
  | .refreshed expiry now =>
    if expiry = zeroTime then lc.minRefresh
    else refreshDelay expiry now lc.refreshSkew lc.minRefresh

/-- The retry delay of the next turn. -/
def Outcome.next (lc : LoopConfig) (retry : Duration) : Outcome → Duration
  | .failed => nextRetry retry lc.maxRetryInterval
  | .refreshed _ _ => lc.minRefresh

/-- The waits after a sequence of outcomes. -/
def delays (lc : LoopConfig) : Duration → List Outcome → List Duration
  | _, [] => []
  | retry, o :: os => o.delay lc retry :: delays lc (o.next lc retry) os

theorem log_nextRefresh {expiry : Time} {wait : Duration}
    (h : (nextRefresh expiry lc.refreshSkew lc.minRefresh).Ran evs wait) :
    ∃ now, (∀ rest, log (.refreshed expiry expiry) (evs ++ rest) = log (.refreshed expiry now) rest) ∧
      ∀ retry, wait = (Outcome.refreshed expiry now).delay lc retry := by
  unfold nextRefresh at h
  by_cases hzero : expiry = zeroTime
  · rw [if_pos hzero] at h
    obtain ⟨rfl, rfl⟩ := h.of_ret
    exact ⟨expiry, fun _ => rfl, fun _ => (if_pos hzero).symm⟩
  · rw [if_neg hzero] at h
    obtain ⟨now, evs₁, rfl, h₁⟩ := Prog.Ran.of_perform h
    obtain ⟨rfl, rfl⟩ := h₁.of_ret
    exact ⟨now, fun _ => rfl, fun _ => (if_neg hzero).symm⟩

/-- A turn returns without waiting, or it waits once, for the delay of its
outcome, and leaves the retry delay of that outcome. -/
theorem log_turn {o : Outcome} {retry : Duration} {next : Option Duration}
    (h : (turn lc retry).Ran evs next) :
    (next = none ∧ log o evs = []) ∨
      ∃ x : Outcome, (∀ rest, log o (evs ++ rest) = (x, x.delay lc retry) :: log x rest) ∧
        (next = none ∨ next = some (x.next lc retry)) := by
  obtain ⟨ended, evs₁, rfl, h₁⟩ := Prog.Ran.of_perform h
  cases ended with
  | true =>
    obtain ⟨rfl, rfl⟩ := h₁.of_ret
    exact .inl ⟨rfl, rfl⟩
  | false =>
    obtain ⟨evs₂, evs₃, result, rfl, hrefresh, h₂⟩ := Prog.Ran.of_bind h₁
    have hlog (rest) : log o (⟨.ctxErr, false⟩ :: (evs₂ ++ rest)) = log (.ofResult result) rest :=
      log_refreshToken hrefresh rest
    cases result with
    | error e =>
      obtain ⟨ended, evs₄, rfl, h₃⟩ := Prog.Ran.of_perform h₂
      cases ended with
      | true =>
        obtain ⟨rfl, rfl⟩ := h₃.of_ret
        exact .inl ⟨rfl, hlog _⟩
      | false =>
        obtain ⟨slept, evs₅, rfl, h₄⟩ := Prog.Ran.of_perform h₃
        refine .inr ⟨.failed, ?_, ?_⟩
        · intro rest
          have hnil : evs₅ = [] := by cases slept <;> exact h₄.of_ret.1
          rw [List.cons_append, List.append_assoc, hlog, hnil]
          rfl
        · cases slept with
          | true => exact .inr h₄.of_ret.2.symm
          | false => exact .inl h₄.of_ret.2.symm
    | ok token =>
      obtain ⟨evs₄, evs₅, wait, rfl, hnext, h₃⟩ := Prog.Ran.of_bind h₂
      obtain ⟨slept, evs₆, rfl, h₄⟩ := Prog.Ran.of_perform h₃
      obtain ⟨now, hread, hwait⟩ := log_nextRefresh hnext
      refine .inr ⟨.refreshed token.expiry now, ?_, ?_⟩
      · intro rest
        have hnil : evs₆ = [] := by cases slept <;> exact h₄.of_ret.1
        rw [List.cons_append, List.append_assoc, hlog, List.append_assoc, Outcome.ofResult, hread,
          hnil, ← hwait retry]
        rfl
      · cases slept with
        | true => exact .inr h₄.of_ret.2.symm
        | false => exact .inl h₄.of_ret.2.symm

/-- The waits of the loop are the delays of its outcomes. -/
theorem loop_waits {n : Nat} {o : Outcome} {retry : Duration} {code : Option Nat}
    (h : (loop lc n retry).Ran evs code) :
    (log o evs).map Prod.snd = delays lc retry ((log o evs).map Prod.fst) := by
  induction n generalizing evs o retry with
  | zero =>
    obtain ⟨rfl, -⟩ := h.of_ret
    rfl
  | succ n ih =>
    obtain ⟨evs₁, evs₂, next, rfl, hturn, h₁⟩ := Prog.Ran.of_bind h
    rcases log_turn (o := o) hturn with ⟨rfl, hlog⟩ | ⟨x, hlog, hnext⟩
    · obtain ⟨rfl, -⟩ := h₁.of_ret
      rw [List.append_nil, hlog]
      rfl
    · rw [hlog]
      rcases hnext with rfl | rfl
      · obtain ⟨rfl, -⟩ := h₁.of_ret
        rfl
      · simp only [List.map_cons, delays, ih h₁]

/-! ## Refreshes and waits -/

/-- Beginnings of refreshes (`true`) and waits (`false`), in their order. -/
def rhythm (evs : List (Event BrokerSig)) : List Bool :=
  evs.filterMap fun
    | ⟨.token _, _⟩ => some true
    | ⟨.sleep _, _⟩ => some false
    | _ => none

/-- Neither of the two. -/
def Silent : BrokerOp → Prop
  | .token _ | .sleep _ => False
  | _ => True

theorem rhythm_append (evs evs' : List (Event BrokerSig)) :
    rhythm (evs ++ evs') = rhythm evs ++ rhythm evs' := List.filterMap_append

theorem rhythm_silent {α : Type} {p : Prog BrokerSig α} {a : α} (hp : p.Only Silent)
    (h : p.Ran evs a) : rhythm evs = [] := by
  refine List.filterMap_eq_nil_iff.mpr fun e he => ?_
  have hsilent := hp.ran h e he
  obtain ⟨o, r⟩ := e
  cases o with
  | token timeout => exact absurd hsilent id
  | sleep d => exact absurd hsilent id
  | _ => rfl

theorem silent_abandon (tmp : String) (e : Err) : (abandon tmp e).Only Silent :=
  ⟨trivial, fun _ => trivial⟩

theorem silent_writeTokenAtomic (path token : String) : (writeTokenAtomic path token).Only Silent := by
  refine ⟨trivial, fun created => ?_⟩
  cases created with
  | error e => trivial
  | ok tmp =>
    refine ⟨trivial, fun wrote => ?_⟩
    cases wrote with
    | error e => exact ⟨trivial, fun _ => silent_abandon _ _⟩
    | ok u =>
      refine ⟨trivial, fun chmodded => ?_⟩
      cases chmodded with
      | error e => exact ⟨trivial, fun _ => silent_abandon _ _⟩
      | ok u =>
        refine ⟨trivial, fun closed => ?_⟩
        cases closed with
        | error e => exact silent_abandon _ _
        | ok u =>
          refine ⟨trivial, fun renamed => ?_⟩
          cases renamed with
          | error e => exact silent_abandon _ _
          | ok u => trivial

theorem silent_nextRefresh (expiry : Time) (skew least : Duration) :
    (nextRefresh expiry skew least).Only Silent := by
  unfold nextRefresh
  split
  · trivial
  · exact ⟨trivial, fun _ => trivial⟩

theorem rhythm_refreshToken {r : Except Err Token} (h : (refreshToken lc).Ran evs r) :
    rhythm evs = [true] := by
  obtain ⟨answer, evs₁, rfl, h₁⟩ := Prog.Ran.of_perform h
  have hrest : rhythm evs₁ = [] := by
    refine rhythm_silent ?_ h₁
    cases answer with
    | error e => trivial
    | ok token =>
      refine (silent_writeTokenAtomic lc.outputPath token.accessToken).bind fun wrote => ?_
      cases wrote <;> trivial
  exact congrArg (true :: ·) hrest

/-- A turn that goes on has refreshed once and then waited once. -/
theorem rhythm_turn {retry : Duration} {next : Option Duration} (h : (turn lc retry).Ran evs next) :
    rhythm evs <+: [true, false] ∧ (next ≠ none → rhythm evs = [true, false]) := by
  obtain ⟨ended, evs₁, rfl, h₁⟩ := Prog.Ran.of_perform h
  cases ended with
  | true =>
    obtain ⟨rfl, rfl⟩ := h₁.of_ret
    exact ⟨List.nil_prefix, fun hne => absurd rfl hne⟩
  | false =>
    obtain ⟨evs₂, evs₃, result, rfl, hrefresh, h₂⟩ := Prog.Ran.of_bind h₁
    have hrhythm : rhythm (⟨.ctxErr, false⟩ :: (evs₂ ++ evs₃)) = true :: rhythm evs₃ := by
      change rhythm (evs₂ ++ evs₃) = _
      rw [rhythm_append, rhythm_refreshToken hrefresh]
      rfl
    rw [hrhythm]
    cases result with
    | error e =>
      obtain ⟨ended, evs₄, rfl, h₃⟩ := Prog.Ran.of_perform h₂
      cases ended with
      | true =>
        obtain ⟨rfl, rfl⟩ := h₃.of_ret
        exact ⟨List.prefix_append [true] [false], fun hne => absurd rfl hne⟩
      | false =>
        obtain ⟨slept, evs₅, rfl, h₄⟩ := Prog.Ran.of_perform h₃
        have hnil : evs₅ = [] := by cases slept <;> exact h₄.of_ret.1
        rw [hnil]
        exact ⟨List.prefix_rfl, fun _ => rfl⟩
    | ok token =>
      obtain ⟨evs₄, evs₅, wait, rfl, hnext, h₃⟩ := Prog.Ran.of_bind h₂
      obtain ⟨slept, evs₆, rfl, h₄⟩ := Prog.Ran.of_perform h₃
      have hnil : evs₆ = [] := by cases slept <;> exact h₄.of_ret.1
      rw [rhythm_append, rhythm_silent (silent_nextRefresh _ _ _) hnext, hnil]
      exact ⟨List.prefix_rfl, fun _ => rfl⟩

/-- Every refresh of the loop is followed by one wait, but for the last one
of a loop that returns. -/
theorem loop_rhythm {n : Nat} {retry : Duration} {code : Option Nat}
    (h : (loop lc n retry).Ran evs code) :
    rhythm evs <+: (List.replicate n [true, false]).flatten ∧
      (code = none → rhythm evs = (List.replicate n [true, false]).flatten) := by
  induction n generalizing evs retry with
  | zero =>
    obtain ⟨rfl, -⟩ := h.of_ret
    exact ⟨List.nil_prefix, fun _ => rfl⟩
  | succ n ih =>
    obtain ⟨evs₁, evs₂, next, rfl, hturn, h₁⟩ := Prog.Ran.of_bind h
    obtain ⟨hfirst, hgoes⟩ := rhythm_turn hturn
    rw [rhythm_append, List.replicate_succ, List.flatten_cons]
    cases next with
    | none =>
      obtain ⟨rfl, rfl⟩ := h₁.of_ret
      have hnil : rhythm [] = [] := rfl
      rw [hnil, List.append_nil]
      exact ⟨hfirst.trans (List.prefix_append _ _), nofun⟩
    | some retry' =>
      obtain ⟨hrest, hall⟩ := ih h₁
      rw [hgoes (by simp)]
      exact ⟨(List.prefix_append_right_inj _).mpr hrest, fun hcode => by rw [hall hcode]⟩

/-! ## Exact delays -/

/-- What `validate` has found. -/
structure LoopConfig.Valid (lc : LoopConfig) : Prop where
  skew : 0 ≤ lc.refreshSkew
  timeout : 0 < lc.fetchTimeout
  minRefresh : 0 < lc.minRefresh
  maxRetry : lc.minRefresh ≤ lc.maxRetryInterval

theorem LoopConfig.validate_none : lc.validate = none ↔ lc.Valid := by
  simp only [validate, Option.orElse_eq_none, refuse_eq_none, Int.not_lt, Int.not_le]
  constructor
  · rintro ⟨hskew, htimeout, hmin, hmax⟩
    exact ⟨hskew, htimeout, hmin, hmax⟩
  · rintro ⟨hskew, htimeout, hmin, hmax⟩
    exact ⟨hskew, htimeout, hmin, hmax⟩

/-- The wait after an outcome in exact arithmetic, when `k` failures came
right before it. -/
def Outcome.exactDelay (lc : LoopConfig) (k : Nat) : Outcome → Duration
  | .failed => min (lc.minRefresh * 2 ^ k) lc.maxRetryInterval
  | .refreshed expiry now =>
    if expiry = zeroTime then lc.minRefresh
    else max lc.minRefresh (timeUntil expiry now - lc.refreshSkew)

/-- The number of failures right before the next outcome. -/
def Outcome.failures (k : Nat) : Outcome → Nat
  | .failed => k + 1
  | .refreshed _ _ => 0

/-- The waits after a sequence of outcomes in exact arithmetic. -/
def exactDelays (lc : LoopConfig) : Nat → List Outcome → List Duration
  | _, [] => []
  | k, o :: os => o.exactDelay lc k :: exactDelays lc (o.failures k) os

/-- The difference for a success does not wrap, or wraps to at most the
least wait. -/
def Outcome.InRange (lc : LoopConfig) : Outcome → Prop
  | .failed => True
  | .refreshed expiry now =>
    expiry = zeroTime ∨ -maxInt64 - 1 ≤ timeUntil expiry now - lc.refreshSkew ∨
      timeUntil expiry now - lc.refreshSkew + 18446744073709551616 ≤ lc.minRefresh

instance : (o : Outcome) → Decidable (o.InRange lc)
  | .failed => .isTrue trivial
  | .refreshed _ _ => inferInstanceAs (Decidable (_ ∨ _ ∨ _))

/-- A product that wraps is not positive, so doubling is exact up to the
limit. -/
theorem nextRetry_eq {current limit : Duration} (hpos : 0 < current) (hle : current ≤ limit)
    (hmax : limit ≤ maxInt64) : nextRetry current limit = min (current * 2) limit := by
  have key : ∀ c m : Int, 0 < c → c ≤ m → m ≤ maxInt64 →
      (if toInt64 (c * 2) ≤ 0 ∨ m < toInt64 (c * 2) then m else toInt64 (c * 2)) = min (c * 2) m := by
    intro c m hpos hle hmax
    unfold maxInt64 at hmax
    unfold toInt64
    split <;> omega
  exact key current limit hpos hle hmax

theorem nextRetry_exact (hv : lc.Valid) (hmax : lc.maxRetryInterval ≤ maxInt64) (k : Nat) :
    nextRetry (min (lc.minRefresh * 2 ^ k) lc.maxRetryInterval) lc.maxRetryInterval =
      min (lc.minRefresh * 2 ^ (k + 1)) lc.maxRetryInterval := by
  have hpow : 0 < lc.minRefresh * 2 ^ k := Int.mul_pos hv.minRefresh (Int.pow_pos (by decide))
  have hlim : 0 < lc.maxRetryInterval := Int.lt_of_lt_of_le hv.minRefresh hv.maxRetry
  rw [nextRetry_eq (lt_min hpow hlim) (min_le_right _ _) hmax, Int.pow_succ, ← Int.mul_assoc]
  have key : ∀ p m : Int, 0 < m → min (min p m * 2) m = min (p * 2) m := by
    intro p m hm
    omega
  exact key _ _ hlim

/-- The wait after a success is exact where the difference is in range, and
only there. -/
theorem refreshDelay_exact_iff {left skew least : Int} (hleft : -maxInt64 - 1 ≤ left)
    (hleft' : left ≤ maxInt64) (hskew : 0 ≤ skew) (hskew' : skew ≤ maxInt64) :
    (if toInt64 (left - skew) < least then least else toInt64 (left - skew)) =
        max least (left - skew) ↔
      -maxInt64 - 1 ≤ left - skew ∨ left - skew + 18446744073709551616 ≤ least := by
  unfold maxInt64 at *
  unfold toInt64
  split <;> omega

theorem timeUntil_int64 (t now : Time) :
    -maxInt64 - 1 ≤ timeUntil t now ∧ timeUntil t now ≤ maxInt64 := by
  have key : ∀ d : Int, -maxInt64 - 1 ≤ max (-maxInt64 - 1) (min d maxInt64) ∧
      max (-maxInt64 - 1) (min d maxInt64) ≤ maxInt64 := by
    intro d
    unfold maxInt64
    omega
  exact key (t - now)

theorem LoopConfig.skew_le (lc : LoopConfig) : lc.refreshSkew ≤ maxInt64 :=
  (lc.int64 _ (by simp)).2

theorem LoopConfig.maxRetry_le (lc : LoopConfig) : lc.maxRetryInterval ≤ maxInt64 :=
  (lc.int64 _ (by simp)).2

/-- One wait, after `k` failures. -/
theorem delay_exact_iff (hv : lc.Valid) (k : Nat) (o : Outcome) :
    o.delay lc (min (lc.minRefresh * 2 ^ k) lc.maxRetryInterval) = o.exactDelay lc k ↔
      o.InRange lc := by
  cases o with
  | failed => simp [Outcome.delay, Outcome.exactDelay, Outcome.InRange]
  | refreshed expiry now =>
    by_cases hzero : expiry = zeroTime
    · simp [Outcome.delay, Outcome.exactDelay, Outcome.InRange, hzero]
    have hleft := timeUntil_int64 expiry now
    simp only [Outcome.delay, Outcome.exactDelay, Outcome.InRange, hzero, if_false, false_or,
      refreshDelay]
    exact refreshDelay_exact_iff hleft.1 hleft.2 hv.skew lc.skew_le

theorem next_exact (hv : lc.Valid) (k : Nat) (o : Outcome) :
    o.next lc (min (lc.minRefresh * 2 ^ k) lc.maxRetryInterval) =
      min (lc.minRefresh * 2 ^ (o.failures k)) lc.maxRetryInterval := by
  cases o with
  | failed => exact nextRetry_exact hv lc.maxRetry_le k
  | refreshed expiry now =>
    rw [Outcome.failures, Int.pow_zero, Int.mul_one]
    exact (min_eq_left hv.maxRetry).symm

theorem delays_exact_iff (hv : lc.Valid) (k : Nat) (os : List Outcome) :
    delays lc (min (lc.minRefresh * 2 ^ k) lc.maxRetryInterval) os = exactDelays lc k os ↔
      ∀ o ∈ os, o.InRange lc := by
  induction os generalizing k with
  | nil => simp [delays, exactDelays]
  | cons o os ih =>
    rw [delays, exactDelays, next_exact hv, List.cons.injEq, delay_exact_iff hv, ih,
      List.forall_mem_cons]

/-- The waits of a run are the exact delays of its outcomes, if and only if
every success is in range; and every refresh is followed by one wait, but
for the last one of a run that returns. -/
theorem waits_exact_iff (lc : LoopConfig) (hv : lc.validate = none) (n : Nat)
    (evs : List (Event BrokerSig)) (code : Option Nat) (h : (runLoop lc n).Ran evs code) :
    ((log .failed evs).map Prod.snd = exactDelays lc 0 ((log .failed evs).map Prod.fst) ↔
      ∀ o ∈ (log .failed evs).map Prod.fst, o.InRange lc) ∧
    rhythm evs <+: (List.replicate n [true, false]).flatten ∧
      (code = none → rhythm evs = (List.replicate n [true, false]).flatten) := by
  refine ⟨?_, loop_rhythm h⟩
  have hvalid := LoopConfig.validate_none.mp hv
  have hstart : min (lc.minRefresh * 2 ^ 0) lc.maxRetryInterval = lc.minRefresh := by
    rw [Int.pow_zero, Int.mul_one]
    exact min_eq_left hvalid.maxRetry
  rw [← delays_exact_iff hvalid 0, hstart, loop_waits h]

/-- The configuration of the flags' defaults, with this skew. -/
def sample (skew : Duration) (h : IsInt64 skew) : LoopConfig where
  outputPath := "/var/run/berth/token"
  refreshSkew := skew
  minRefresh := 30 * second
  fetchTimeout := 30 * second
  maxRetryInterval := 300 * second
  int64 := by
    simp only [List.forall_mem_cons]
    exact ⟨h, by decide, by decide, by decide, by simp⟩

/-- The events of a turn that writes a token with this expiry. -/
def refreshedTurn (expiry now wait : Int) : List (Event BrokerSig) :=
  [⟨.ctxErr, false⟩, ⟨.token (30 * second), .ok ⟨"jwt", expiry⟩⟩,
    ⟨.createTemp "/var/run/berth" ".token-", .ok "/var/run/berth/.token-1"⟩,
    ⟨.writeString "/var/run/berth/.token-1" "jwt", .ok ()⟩,
    ⟨.chmod "/var/run/berth/.token-1" 0o600, .ok ()⟩, ⟨.close "/var/run/berth/.token-1", .ok ()⟩,
    ⟨.rename "/var/run/berth/.token-1" "/var/run/berth/token", .ok ()⟩,
    ⟨.now, now⟩, ⟨.sleep wait, true⟩]

/-- The events of a turn whose fetch fails. -/
def failedTurn (wait : Duration) : List (Event BrokerSig) :=
  [⟨.ctxErr, false⟩, ⟨.token (30 * second), .error (.new "connection refused")⟩, ⟨.ctxErr, false⟩,
    ⟨.sleep wait, true⟩]

/-- Two failures, then a token for an hour. -/
theorem waits_exact_sample :
    let lc := sample (60 * second) (by decide)
    let evs := failedTurn (30 * second) ++ failedTurn (60 * second) ++
      refreshedTurn (3600 * second) 0 (3540 * second)
    (runLoop lc 3).Ran evs none ∧
      (log .failed evs).map Prod.snd = [30 * second, 60 * second, 3540 * second] ∧
      (log .failed evs).map Prod.snd = exactDelays lc 0 ((log .failed evs).map Prod.fst) := by
  have hrun : (runLoop (sample (60 * second) (by decide)) 3).Ran (failedTurn (30 * second) ++
      failedTurn (60 * second) ++ refreshedTurn (3600 * second) 0 (3540 * second)) none :=
    Prog.ran_of_feed (by decide)
  exact ⟨hrun, by decide,
    (waits_exact_iff _ (by decide) 3 _ none hrun).1.mpr (by decide)⟩

/-- With the largest skew, a token that expired a second ago is refreshed
after 292 years. -/
theorem expired_token_waits :
    let lc := sample maxInt64 (by decide)
    let evs := refreshedTurn (-second) 0 9223372035854775809
    lc.validate = none ∧ (runLoop lc 1).Ran evs none ∧
      log .failed evs = [(.refreshed (-second) 0, 9223372035854775809)] ∧
      exactDelays lc 0 [.refreshed (-second) 0] = [30 * second] := by
  exact ⟨by decide, Prog.ran_of_feed (by decide), by decide, by decide⟩

end Berth.Broker
