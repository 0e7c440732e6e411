/-
Berth.Acquire.EnforcerTheorems — SIGTERM, grace, SIGKILL, over any series of
Holds and Releases.

A run of the signal enforcer is a list of steps, each read off the events of
one call: what the scan found, when, and which signals were sent. For a
process id, `Escalates` follows the processes that bear it: a scan without
the id ends one, and the next scan with it begins another. The enforcer's
map is not cleared when an id is missing from a scan, so it treats the new
process as the old one: the escalation is as it should be in exactly the runs
in which no id is reused before a Release (`escalates_iff_not_reused`).
-/
import Berth.Acquire.Enforcer

namespace Berth.Acquire

open Berth.Interleave (Prog)
open Berth.Lease

namespace SignalEnforcer

/-! ## One Hold -/

/-- The map of SIGTERM instants after a loop over `pids`. -/
def marked (now : Time) : List Nat → List (Nat × Time) → List (Nat × Time)
  | [], termedAt => termedAt
  | pid :: pids, termedAt =>
    match termedAt.lookup pid with
    | none => marked now pids ((pid, now) :: termedAt)
    | some _ => marked now pids termedAt

/-- The signals of a loop over `pids`. -/
def signals (grace : Duration) (now : Time) : List Nat → List (Nat × Time) → List (Nat × Signal)
  | [], _ => []
  | pid :: pids, termedAt =>
    match termedAt.lookup pid with
    | none => (pid, .sigterm) :: signals grace now pids ((pid, now) :: termedAt)
    | some t =>
      if grace ≤ now - t then (pid, .sigkill) :: signals grace now pids termedAt
      else signals grace now pids termedAt

variable {grace : Duration} {now t : Time} {pid : Nat} {pids : List Nat}
variable {termedAt : List (Nat × Time)}
variable {termed : Option Time}

theorem lookup_mark (p : Nat) :
    ((pid, now) :: termedAt).lookup p = if p = pid then some now else termedAt.lookup p := by
  rw [List.lookup_cons]
  by_cases h : p = pid
  · simp [h]
  · rw [beq_eq_false_iff_ne.mpr h, if_neg h]

/-- An id keeps its instant, or gets this one when it was found. -/
theorem lookup_marked (p : Nat) :
    (marked now pids termedAt).lookup p =
      (termedAt.lookup p).or (if p ∈ pids then some now else none) := by
  induction pids generalizing termedAt with
  | nil => simp [marked]
  | cons pid pids ih =>
    unfold marked
    split
    · next hnone =>
      rw [ih, lookup_mark]
      by_cases h : p = pid
      · subst h
        simp [hnone]
      · simp [h]
    · next t hsome =>
      rw [ih]
      by_cases h : p = pid
      · subst h
        simp [hsome]
      · simp [h]

/-- SIGTERM goes to the ids that are found and not in the map. -/
theorem mem_signals_term (p : Nat) :
    (p, Signal.sigterm) ∈ signals grace now pids termedAt ↔ p ∈ pids ∧ termedAt.lookup p = none := by
  induction pids generalizing termedAt with
  | nil => simp [signals]
  | cons pid pids ih =>
    unfold signals
    split
    · next hnone =>
      rw [List.mem_cons, ih, lookup_mark]
      by_cases h : p = pid
      · subst h
        simp [hnone]
      · simp [h]
    · next t hsome =>
      have hrest : (p, Signal.sigterm) ∈ signals grace now pids termedAt ↔
          p ∈ pid :: pids ∧ termedAt.lookup p = none := by
        rw [ih, List.mem_cons]
        by_cases h : p = pid
        · subst h
          simp [hsome]
        · simp [h]
      split
      · rw [List.mem_cons, hrest]
        simp
      · exact hrest

/-- SIGKILL goes to no id that is not found, and to none before its grace
is over. -/
theorem mem_signals_kill {p : Nat} (h : (p, Signal.sigkill) ∈ signals grace now pids termedAt) :
    p ∈ pids ∧ grace ≤ now - (termedAt.lookup p).getD now := by
  induction pids generalizing termedAt with
  | nil => simp [signals] at h
  | cons pid pids ih =>
    unfold signals at h
    split at h
    · next hnone =>
      rw [List.mem_cons] at h
      simp only [Prod.mk.injEq, reduceCtorEq, and_false, false_or] at h
      obtain ⟨hmem, hle⟩ := ih h
      refine ⟨List.mem_cons_of_mem _ hmem, ?_⟩
      rw [lookup_mark] at hle
      by_cases hp : p = pid
      · subst hp
        simpa [hnone] using hle
      · simpa [hp] using hle
    · next t hsome =>
      split at h
      · next hgrace =>
        rw [List.mem_cons] at h
        rcases h with h | h
        · cases h
          refine ⟨List.mem_cons_self, ?_⟩
          rw [hsome]
          exact hgrace
        · obtain ⟨hmem, hle⟩ := ih h
          exact ⟨List.mem_cons_of_mem _ hmem, hle⟩
      · obtain ⟨hmem, hle⟩ := ih h
        exact ⟨List.mem_cons_of_mem _ hmem, hle⟩

/-- An id in the map is sent SIGKILL when it is found after its grace. -/
theorem signals_kill {p : Nat} (hp : p ∈ pids) (ht : termedAt.lookup p = some t)
    (hgrace : grace ≤ now - t) : (p, Signal.sigkill) ∈ signals grace now pids termedAt := by
  induction pids generalizing termedAt with
  | nil => cases hp
  | cons pid pids ih =>
    unfold signals
    by_cases h : p = pid
    · subst h
      rw [ht]
      simp [hgrace]
    · have hmem : p ∈ pids := by simpa [h] using hp
      split
      · refine List.mem_cons_of_mem _ (ih hmem ?_)
        rw [lookup_mark, if_neg h]
        exact ht
      · split
        · exact List.mem_cons_of_mem _ (ih hmem ht)
        · exact ih hmem ht

/-! ## Calls and their events -/

/-- The signals among the events of a call, whether or not they arrived. -/
def sent (evs : List (Interleave.Event HelperSig)) : List (Nat × Signal) :=
  evs.filterMap fun
    | ⟨.kill pid sig, _⟩ => some (pid, sig)
    | _ => none

/-- The processes the scan found, if it succeeded. -/
def scanned (evs : List (Interleave.Event HelperSig)) : Option (List Nat) :=
  evs.findSome? fun
    | ⟨.findProcesses, .ok pids⟩ => some pids
    | _ => none

/-- The reading of the clock. -/
def clock (evs : List (Interleave.Event HelperSig)) : Option Time :=
  evs.findSome? fun
    | ⟨.now, t⟩ => some t
    | _ => none

/-- A call, as it is seen from outside. -/
inductive Step where
  /-- a Hold whose scan succeeded, with its reading of the clock if it took one -/
  | hold (pids : List Nat) (now : Option Time) (sent : List (Nat × Signal))
  /-- a Hold whose scan failed -/
  | failed (sent : List (Nat × Signal))
  | release
  deriving DecidableEq

/-- The step of a Hold. -/
def Step.ofHold (evs : List (Interleave.Event HelperSig)) : Step :=
  match scanned evs with
  | some pids => .hold pids (clock evs) (sent evs)
  | none => .failed (sent evs)

/-- Any series of calls, each with any answers to what it does. -/
inductive Runs : SignalEnforcer → List Step → SignalEnforcer → Prop where
  | nil (s : SignalEnforcer) : Runs s [] s
  | hold {s s' s'' : SignalEnforcer} {evs : List (Interleave.Event HelperSig)}
      {err : Except Err Unit} {steps : List Step} (h : s.hold.Ran evs (err, s'))
      (hs : Runs s' steps s'') : Runs s (.ofHold evs :: steps) s''
  | release {s s' s'' : SignalEnforcer} {evs : List (Interleave.Event HelperSig)}
      {err : Except Err Unit} {steps : List Step} (h : s.release.Ran evs (err, s'))
      (hs : Runs s' steps s'') : Runs s (.release :: steps) s''

variable {s s' : SignalEnforcer} {evs : List (Interleave.Event HelperSig)} {err : Except Err Unit}

theorem signal_ran {sig : Signal} {what : String} {failures r : Except Err Unit}
    (h : (signal pid sig what failures).Ran evs r) : ∃ ans, evs = [⟨.kill pid sig, ans⟩] := by
  obtain ⟨ans, evs₁, rfl, h₁⟩ := Prog.Ran.of_perform h
  refine ⟨ans, ?_⟩
  cases ans with
  | ok u => rw [h₁.of_ret.1]
  | error e => cases e <;> rw [h₁.of_ret.1]

/-- The loop sends `signals` and leaves `marked`. -/
theorem holdLoop_ran {failures : Except Err Unit}
    (h : (holdLoop now pids s failures).Ran evs (err, s')) :
    sent evs = signals s.grace now pids s.termedAt ∧
      s' = { s with termedAt := marked now pids s.termedAt } := by
  induction pids generalizing s evs failures with
  | nil =>
    obtain ⟨rfl, heq⟩ := h.of_ret
    cases heq
    exact ⟨rfl, rfl⟩
  | cons pid pids ih =>
    unfold holdLoop at h
    unfold signals marked
    cases hlook : s.termedAt.lookup pid with
    | none =>
      rw [hlook] at h
      obtain ⟨evs₁, evs₂, failures', rfl, hsig, h₁⟩ := Prog.Ran.of_bind h
      obtain ⟨ans, rfl⟩ := signal_ran hsig
      obtain ⟨hsent, rfl⟩ := ih h₁
      exact ⟨congrArg ((pid, Signal.sigterm) :: ·) hsent, rfl⟩
    | some t =>
      rw [hlook] at h
      dsimp only at h ⊢
      split at h
      · next hgrace =>
        obtain ⟨evs₁, evs₂, failures', rfl, hsig, h₁⟩ := Prog.Ran.of_bind h
        obtain ⟨ans, rfl⟩ := signal_ran hsig
        obtain ⟨hsent, rfl⟩ := ih h₁
        rw [if_pos hgrace]
        exact ⟨congrArg ((pid, Signal.sigkill) :: ·) hsent, rfl⟩
      · next hgrace =>
        rw [if_neg hgrace]
        exact ih h

theorem markUnhealthy_ran {r : Except Err Unit} (h : State.markUnhealthy.Ran evs r) :
    ∃ ans, evs = [⟨.remove .healthy, ans⟩] := by
  obtain ⟨ans, evs₁, rfl, h₁⟩ := Prog.Ran.of_perform h
  refine ⟨ans, ?_⟩
  cases ans with
  | ok u => rw [h₁.of_ret.1]
  | error e => cases e <;> rw [h₁.of_ret.1]

/-- A Hold does nothing after a failed scan, and one loop after a successful
one. -/
theorem hold_ran (h : s.hold.Ran evs (err, s')) :
    (Step.ofHold evs = .failed [] ∧ s' = s) ∨
      ∃ pids now, Step.ofHold evs = .hold pids (some now) (signals s.grace now pids s.termedAt) ∧
        s' = { s with termedAt := marked now pids s.termedAt } := by
  obtain ⟨evs₁, evs₂, failures, rfl, hmark, h₁⟩ := Prog.Ran.of_bind h
  obtain ⟨removed, rfl⟩ := markUnhealthy_ran hmark
  obtain ⟨found, evs₃, rfl, h₂⟩ := Prog.Ran.of_perform h₁
  cases found with
  | error e =>
    obtain ⟨rfl, heq⟩ := h₂.of_ret
    cases heq
    exact .inl ⟨rfl, rfl⟩
  | ok pids =>
    obtain ⟨now, evs₄, rfl, h₃⟩ := Prog.Ran.of_perform h₂
    obtain ⟨hsent, rfl⟩ := holdLoop_ran h₃
    exact .inr ⟨pids, now, congrArg (Step.hold pids (some now)) hsent, rfl⟩

theorem release_ran (h : s.release.Ran evs (err, s')) : s' = { s with termedAt := [] } := by
  obtain ⟨evs₁, evs₂, marked, rfl, -, h₁⟩ := Prog.Ran.of_bind h
  obtain ⟨-, heq⟩ := h₁.of_ret
  cases heq
  rfl

/-! ## Escalation -/

/-- What a Hold at `now` owes a process it finds. The process was sent
SIGTERM at `termed`, if this is not the first Hold that finds it. -/
structure Owed (grace : Duration) (pid : Nat) (termed : Option Time) (now : Time)
    (sent : List (Nat × Signal)) : Prop where
  /-- SIGTERM at the first Hold -/
  term : termed = none → (pid, .sigterm) ∈ sent
  /-- no SIGKILL before the grace is over -/
  early : (pid, .sigkill) ∈ sent → grace ≤ now - termed.getD now
  /-- SIGKILL at every later Hold after it -/
  late : ∀ t, termed = some t → grace ≤ now - t → (pid, .sigkill) ∈ sent

/-- Nothing is sent to the id. -/
def Spared (pid : Nat) (sent : List (Nat × Signal)) : Prop := ∀ sig, (pid, sig) ∉ sent

/-- Every process with this id gets SIGTERM and its grace: a Hold that finds
it reads the clock and sends what it owes. A scan without
the id ends the process, and so does a Release for what it is owed; `termed`
is the SIGTERM of the process that is there now. -/
def Escalates (grace : Duration) (pid : Nat) : Option Time → List Step → Prop
  | _, [] => True
  | _, .release :: steps => Escalates grace pid none steps
  | termed, .failed sent :: steps => Spared pid sent ∧ Escalates grace pid termed steps
  | termed, .hold pids now sent :: steps =>
    if pid ∈ pids then
      ∃ t, now = some t ∧ Owed grace pid termed t sent ∧
        Escalates grace pid (some (termed.getD t)) steps
    else Spared pid sent ∧ Escalates grace pid none steps

/-- What the scans since the last Release say about an id. -/
inductive Sighting where
  | unseen
  | present
  /-- it was found, and then it was missing -/
  | gone
  deriving DecidableEq

/-- The id is not found again after it was missing from a scan, before a
Release. -/
def NotReused (pid : Nat) : Sighting → List Step → Prop
  | _, [] => True
  | _, .release :: steps => NotReused pid .unseen steps
  | x, .failed _ :: steps => NotReused pid x steps
  | x, .hold pids _ _ :: steps =>
    if pid ∈ pids then x ≠ .gone ∧ NotReused pid .present steps
    else NotReused pid (if x = .unseen then .unseen else .gone) steps

/-- How the map, the process and the sightings go together. The map forgets
nothing before a Release. -/
def Tracks (pid : Nat) (termedAt : List (Nat × Time)) : Sighting → Option Time → Prop
  | .unseen, termed => termed = none ∧ termedAt.lookup pid = none
  | .present, termed => ∃ t, termed = some t ∧ termedAt.lookup pid = some t
  | .gone, termed => termed = none ∧ ∃ t, termedAt.lookup pid = some t

theorem spared_signals (h : pid ∉ pids) : Spared pid (signals grace now pids termedAt) := by
  intro sig hmem
  cases sig with
  | sigterm => exact h ((mem_signals_term pid).mp hmem).1
  | sigkill => exact h (mem_signals_kill hmem).1

/-- A process whose SIGTERM the map knows gets what it is owed. -/
theorem owed_signals (hp : pid ∈ pids) (h : termedAt.lookup pid = termed) :
    Owed grace pid termed now (signals grace now pids termedAt) := by
  subst h
  refine ⟨?_, ?_, ?_⟩
  · intro hnone
    exact (mem_signals_term pid).mpr ⟨hp, hnone⟩
  · intro hkill
    exact (mem_signals_kill hkill).2
  · intro t ht hgrace
    exact signals_kill hp ht hgrace

/-- A new process under an old entry does not get SIGTERM. -/
theorem not_owed_of_stale (h : termedAt.lookup pid = some t) :
    ¬ Owed grace pid none now (signals grace now pids termedAt) := by
  intro howed
  have hterm := ((mem_signals_term pid).mp (howed.term rfl)).2
  rw [h] at hterm
  cases hterm

theorem Tracks.lookup_eq {x : Sighting} (h : Tracks pid termedAt x termed) (hx : x ≠ .gone) :
    termedAt.lookup pid = termed := by
  cases x with
  | unseen => rw [h.1, h.2]
  | present =>
    obtain ⟨t, rfl, ht⟩ := h
    exact ht
  | gone => exact absurd rfl hx

/-- A scan that finds the id. -/
theorem Tracks.found {x : Sighting} (h : Tracks pid termedAt x termed) (hx : x ≠ .gone)
    (hp : pid ∈ pids) (now : Time) :
    Tracks pid (marked now pids termedAt) .present (some (termed.getD now)) := by
  refine ⟨termed.getD now, rfl, ?_⟩
  rw [lookup_marked, if_pos hp, h.lookup_eq hx]
  cases termed <;> rfl

/-- A scan without it. -/
theorem Tracks.missed {x : Sighting} (h : Tracks pid termedAt x termed) (hp : pid ∉ pids)
    (now : Time) :
    Tracks pid (marked now pids termedAt) (if x = .unseen then .unseen else .gone) none := by
  have hlook : (marked now pids termedAt).lookup pid = termedAt.lookup pid := by
    rw [lookup_marked, if_neg hp, Option.or_none]
  cases x with
  | unseen => exact ⟨rfl, hlook.trans h.2⟩
  | present =>
    obtain ⟨t, -, ht⟩ := h
    exact ⟨rfl, t, hlook.trans ht⟩
  | gone =>
    obtain ⟨-, t, ht⟩ := h
    exact ⟨rfl, t, hlook.trans ht⟩

theorem Runs.escalates_iff {steps : List Step} (h : Runs s steps s') {x : Sighting}
    (ht : Tracks pid s.termedAt x termed) :
    Escalates s.grace pid termed steps ↔ NotReused pid x steps := by
  induction h generalizing x termed with
  | nil s => simp [Escalates, NotReused]
  | release h _ ih =>
    rw [release_ran h] at ih
    exact ih (x := .unseen) ⟨rfl, rfl⟩
  | hold h _ ih =>
    rcases hold_ran h with ⟨hstep, rfl⟩ | ⟨pids, now, hstep, rfl⟩
    · rw [hstep, Escalates, NotReused, ih ht]
      exact and_iff_right fun sig hmem => absurd hmem List.not_mem_nil
    rw [hstep, Escalates, NotReused]
    by_cases hp : pid ∈ pids
    · rw [if_pos hp, if_pos hp]
      by_cases hx : x = .gone
      · subst hx
        obtain ⟨rfl, t, hlook⟩ := ht
        constructor
        · rintro ⟨_, hread, howed, -⟩
          cases hread
          exact absurd howed (not_owed_of_stale hlook)
        · exact fun hreuse => absurd rfl hreuse.1
      · have hrest := ih (ht.found hx hp now)
        constructor
        · rintro ⟨_, hread, -, hesc⟩
          cases hread
          exact ⟨hx, hrest.mp hesc⟩
        · rintro ⟨-, hreuse⟩
          exact ⟨now, rfl, owed_signals hp (ht.lookup_eq hx), hrest.mpr hreuse⟩
    · rw [if_neg hp, if_neg hp]
      exact (and_iff_right (spared_signals hp)).trans (ih (ht.missed hp now))

/-- In every run of a new enforcer, the processes with an id get SIGTERM
and their grace before SIGKILL, if and only if the id is not reused. -/
theorem escalates_iff_not_reused (grace : Duration) (steps : List Step) (s : SignalEnforcer)
    (h : Runs ⟨grace, []⟩ steps s) (pid : Nat) :
    Escalates grace pid none steps ↔ NotReused pid .unseen steps :=
  h.escalates_iff ⟨rfl, rfl⟩

/-- The events of a Hold that finds `pids` and signals `sent`. -/
def holdEvents (pids : List Nat) (now : Time) (sent : List (Nat × Signal)) :
    List (Interleave.Event HelperSig) :=
  ⟨.remove .healthy, .ok ()⟩ :: ⟨.findProcesses, .ok pids⟩ :: ⟨.now, now⟩ ::
    sent.map fun (pid, sig) => ⟨.kill pid sig, .ok ()⟩

/-- A first Hold on process 7. -/
theorem sample_first : (⟨10, []⟩ : SignalEnforcer).hold.Ran (holdEvents [7] 0 [(7, .sigterm)])
    (.ok (), ⟨10, [(7, 0)]⟩) := Prog.ran_of_feed (by decide)

/-- A Hold on it after its grace. -/
theorem sample_late : (⟨10, [(7, 0)]⟩ : SignalEnforcer).hold.Ran
    (holdEvents [7] 20 [(7, .sigkill)]) (.ok (), ⟨10, [(7, 0)]⟩) :=
  Prog.ran_of_feed (by decide)

/-- A Hold that finds nothing. -/
theorem sample_empty : (⟨10, [(7, 0)]⟩ : SignalEnforcer).hold.Ran (holdEvents [] 5 [])
    (.ok (), ⟨10, [(7, 0)]⟩) := Prog.ran_of_feed (by decide)

theorem escalates_sample :
    Runs ⟨10, []⟩ [.hold [7] (some 0) [(7, .sigterm)], .hold [7] (some 20) [(7, .sigkill)]]
        ⟨10, [(7, 0)]⟩ ∧
      Escalates 10 7 none
        [.hold [7] (some 0) [(7, .sigterm)], .hold [7] (some 20) [(7, .sigkill)]] := by
  have hrun : Runs ⟨10, []⟩
      [.hold [7] (some 0) [(7, .sigterm)], .hold [7] (some 20) [(7, .sigkill)]]
      ⟨10, [(7, 0)]⟩ := .hold sample_first (.hold sample_late (.nil _))
  refine ⟨hrun, (escalates_iff_not_reused 10 _ _ hrun 7).mpr ?_⟩
  simp [NotReused]

/-- Process 7 exits, and another process gets its id: it is killed at
once. -/
theorem reused_pid_killed :
    Runs ⟨10, []⟩ [.hold [7] (some 0) [(7, .sigterm)], .hold [] (some 5) [],
        .hold [7] (some 20) [(7, .sigkill)]] ⟨10, [(7, 0)]⟩ ∧
      ¬ Escalates 10 7 none [.hold [7] (some 0) [(7, .sigterm)], .hold [] (some 5) [],
        .hold [7] (some 20) [(7, .sigkill)]] := by
  refine ⟨.hold sample_first (.hold sample_empty (.hold sample_late (.nil _))), ?_⟩
  rintro ⟨-, -, -, -, t, -, howed, -⟩
  have hterm := howed.term rfl
  simp at hterm

end SignalEnforcer

end Berth.Acquire
