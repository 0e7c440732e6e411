/-
Berth.Api.Readiness — the gate in front of the readiness probe
(`internal/api/routes.go`).

`/readyz` asks for no credentials, so anybody can send any number of
requests. They go through `readinessGate`, a cache of the outcome of the
last probe of the backend: an error is kept like a success. The backend
answers `Ping` with an error or not, and changes its mind at any time; a
probe may also run into its deadline.

A server without a manager has no checker and no gate: its answer is always
200.
-/
import Berth.Api.Wire
import Berth.Cache.TtlTheorems

namespace Berth.Api

open Berth.Cache Berth.Http Berth.Interleave Berth.Lease

/-! ## The gate -/

def readinessCacheTTL : Duration := second

/-- How a probe ends. -/
inductive Probe where
  /-- `Ready` returns what the backend says. -/
  | answered
  /-- `readinessProbeTimeout` has passed. -/
  | deadline
  deriving DecidableEq, Repr

/-- What `checker.Ready` returns; the backend is the error its `Ping` gives. -/
def probe : Probe → Option Err → Option Err
  | .answered, ping => ping
  | .deadline, _ => some (.new "context deadline exceeded")

/-- `readinessGate`: `lastErr` and `checkedAt` are what is cached, once
`primed`. -/
def readinessGate : Design where
  World := Option Err
  Event := Option Err
  Choice := Probe
  Answer := Option Err
  Value := Option Err
  ttl := readinessCacheTTL
  zero := none
  accept := some
  evolve := fun ping _ => some ping
  look := probe

/-- `readinessGate.ready`. -/
def ready : Prog (sig readinessGate) (Option Err) := get

/-- The function that `readyzHandler` returns, from what the gate says. -/
def readyz (err : Option Err) : RawResponse :=
  match err with
  | some _ => writePlain 503 "not ready\n"
  | none => writePlain 200 "ok\n"

/-- The server sends the answer of the gate. -/
theorem serve_readyz {f : Front} {managed : Bool} {r : RawRequest} {values : PathValues}
    (err : Option Err) (random : Option (Vector UInt8 16))
    (h : findHandler (newMux managed) r.method r.path = .handler .readyz values) :
    serve f managed { ready := err.isNone, random := random } r = .ret (readyz err) := by
  cases err <;> simp [serve, h, readyz]

/-- A server that has just come up, in front of a backend. -/
def gateState (ping : Option Err) (now : Time) : State readinessGate :=
  { world := ping, clock := now, owner := none, cached := none, asked := none, log := [] }

/-- Any number of requests. -/
abbrev freshGate (ping : Option Err) (now : Time) : Pool (machine readinessGate) :=
  Pool.empty (gateState ping now)

/-! ## Probes and answers -/

variable {ping : Option Err} {now : Time} {p : Pool (machine readinessGate)}

theorem gateState_inv (ping : Option Err) (now : Time) : Inv (gateState ping now) where
  apart := .nil
  past := by simp [gateState]
  seen := by simp [gateState]
  asked := by simp [gateState]
  free := fun _ => ⟨rfl, fun f hf => by cases hf⟩
  tail := fun f hf => by cases hf
  backed := by simp [gateState]
  newest := by simp [gateState]

theorem gate_ok (h : (freshGate ping now).Reaches p) :
    PoolOk (discipline readinessGate) (fun _ _ => Post) p :=
  poolOk_reaches (by decide) (gateState_inv ping now) rfl h

/-- However many requests there are, a probe begins no earlier than a second
after the end of the one before. -/
theorem probes_spaced (h : (freshGate ping now).Reaches p) :
    p.shared.log.Pairwise fun later earlier =>
      earlier.finish + readinessCacheTTL ≤ later.start := by
  refine (gate_ok h).inv.spaced.imp fun hspaced => ?_
  exact hspaced (by simp [readinessGate])

/-- A request is told what the backend said to a probe. The outcome was put
into the cache when that probe had ended, with a stamp that was less than a
second old when the request read the clock, or later than that reading. -/
theorem readyz_recent (h : (freshGate ping now).Reaches p) {i : Nat}
    {t : Thread (machine readinessGate)} {err : Option Err} (ht : p.threads[i]? = some t)
    (herr : t.prog.result? = some err) :
    ∃ reading f stamp how, t.loc.reading = some reading ∧ f ∈ p.shared.log ∧
      err = probe how f.world ∧ f.start ≤ f.finish ∧ f.stamp = some stamp ∧ f.finish ≤ stamp ∧
      reading < stamp + readinessCacheTTL := by
  have hok := gate_ok h
  rcases hok.returned ht herr with ⟨r, f, c, hr, hf, hstamped, hlt, -⟩ | ⟨f, -, hfail, -⟩
  · obtain ⟨how, hhow⟩ := (hok.inv.seen f hf).2
    obtain ⟨hle, -, hstamp⟩ := hok.inv.past f hf
    have hvalue : some f.answer = some err := hstamped.value
    refine ⟨r, f, c, how, hr, hf, ?_, hle, hstamped.stamp, (hstamp c hstamped.stamp).1, hlt⟩
    rw [← Option.some.inj hvalue]
    exact hhow
  · -- every outcome of a probe is kept
    cases hfail

/-! ## A run -/

/-- What the backend says when it is down. -/
def pingDown : Err := .new "connection refused"

/-- Two requests while the backend is up and a third, more than a second
later, when it is not. -/
def polling : List (Action (machine readinessGate)) :=
  let spawn : Action (machine readinessGate) := .spawn ()
  let run i n := List.replicate n (.exec i .answered)
  [[spawn, spawn], run 0 3, [.env (.tick 5)], run 0 4, run 1 4,
    [.env (.world (some pingDown)), .env (.tick 1000000000), spawn], run 2 8].flatten

def polled : Pool (machine readinessGate) := (freshGate none 0).after polling (by decide)

theorem reaches_polled : (freshGate none 0).Reaches polled := Pool.reaches_after _

theorem probes_spaced_polled :
    polled.shared.log.length = 2 ∧
      polled.shared.log.Pairwise fun later earlier =>
        earlier.finish + readinessCacheTTL ≤ later.start :=
  ⟨by decide, probes_spaced reaches_polled⟩

theorem readyz_recent_polled :
    ∃ t, polled.threads[2]? = some t ∧ t.prog.result? = some (some pingDown) ∧
      ∃ reading f stamp how, t.loc.reading = some reading ∧ f ∈ polled.shared.log ∧
        some pingDown = probe how f.world ∧ f.start ≤ f.finish ∧ f.stamp = some stamp ∧
        f.finish ≤ stamp ∧ reading < stamp + readinessCacheTTL := by
  have hreturned : (polled.threads[2]?.bind fun t => t.prog.result?) = some (some pingDown) := by
    decide
  obtain ⟨t, ht, herr⟩ := Option.bind_eq_some_iff.mp hreturned
  exact ⟨t, ht, herr, readyz_recent reaches_polled ht herr⟩

end Berth.Api
