/-
Berth.Cache.TtlTheorems — how often a cache fetches, and how old its
answers are.

The lock owns everything but the clock and the world: while a caller holds
it, nobody else changes the cache or the log (`Around`). So a caller that
found the stamp too old begins its fetch after that stamp has run out, and
as every stamp is a reading after the end of its fetch, any two fetches are
apart (`Apart`). A failed fetch leaves no stamp and is not waited for.
-/
import Berth.Cache.Ttl
import Berth.Interleave.PoolTheorems
import Mathlib.Logic.Relation

namespace Berth.Cache

open Berth.Interleave

variable {D : Design}
variable {f : Fetch D}

/-! ## Invariant -/

/-- The world has moved on from one to the other. -/
def Later (D : Design) : D.World → D.World → Prop :=
  Relation.ReflTransGen fun w w' => ∃ e, D.evolve e w = some w'

/-- A fetch that begins at `t` would begin after this one, and if this one
left a stamp, after the stamp has run out. -/
def Over (D : Design) (t : Int) (f : Fetch D) : Prop :=
  f.finish ≤ t ∧ ∀ c, f.stamp = some c → c + D.ttl ≤ t

structure Apart (D : Design) (later earlier : Fetch D) : Prop where
  time : Over D later.start earlier
  world : Later D earlier.world later.world

/-- The value of a fetch was put into the cache with this stamp. -/
structure Stamped (f : Fetch D) (v : D.Value) (c : Int) : Prop where
  value : D.accept f.answer = some v
  stamp : f.stamp = some c

/-- A fetch saw a world no older than any that left its stamp in this
log. -/
def Newest (log : List (Fetch D)) (f : Fetch D) : Prop :=
  ∀ g ∈ log, g.stamp ≠ none → Later D g.world f.world

/-- Every value that was accepted has been put into the cache. -/
def Settled (log : List (Fetch D)) : Prop := ∀ f ∈ log, D.accept f.answer ≠ none → f.stamp ≠ none

structure Inv (s : State D) : Prop where
  apart : s.log.Pairwise (Apart D)
  past : ∀ f ∈ s.log, f.start ≤ f.finish ∧ f.finish ≤ s.clock ∧
    ∀ c, f.stamp = some c → f.finish ≤ c ∧ c ≤ s.clock
  seen : ∀ f ∈ s.log, Later D f.world s.world ∧ ∃ ch, f.answer = D.look ch f.world
  asked : ∀ t, s.asked = some t → t ≤ s.clock ∧ (∀ f ∈ s.log, Over D t f) ∧ Settled s.log
  free : s.owner = none → s.asked = none ∧ Settled s.log
  tail : Settled s.log.tail
  backed : ∀ v c, s.cached = some (v, c) → ∃ f ∈ s.log, Stamped f v c ∧ Newest s.log f
  newest : ∀ f ∈ s.log, ∀ c, f.stamp = some c → ∃ v c', s.cached = some (v, c') ∧ c ≤ c'

/-! ## Interference -/

/-- What a caller may expect while it does not look. -/
structure Around (i : Nat) (s s' : State D) : Prop where
  clock : s.clock ≤ s'.clock
  owned : s.owner = some i → s'.owner = some i ∧ s'.cached = s.cached ∧ s'.asked = s.asked ∧
    s'.log = s.log
  other : s.owner ≠ some i → s'.owner ≠ some i
  kept : ∀ f ∈ s.log, f.stamp ≠ none ∨ D.accept f.answer = none → f ∈ s'.log

theorem Around.refl (i : Nat) (s : State D) : Around i s s :=
  ⟨Int.le_refl _, fun h => ⟨h, rfl, rfl, rfl⟩, fun h => h, fun _ hf _ => hf⟩

theorem Around.trans {i : Nat} {s₁ s₂ s₃ : State D} (h : Around i s₁ s₂) (h' : Around i s₂ s₃) :
    Around i s₁ s₃ := by
  refine ⟨Int.le_trans h.clock h'.clock, fun ho => ?_, fun ho => h'.other (h.other ho),
    fun f hf hs => h'.kept f (h.kept f hf hs) hs⟩
  obtain ⟨ho₂, hc, ha, hl⟩ := h.owned ho
  obtain ⟨ho₃, hc', ha', hl'⟩ := h'.owned ho₂
  exact ⟨ho₃, hc'.trans hc, ha'.trans ha, hl'.trans hl⟩

/-- What a step of a caller may do: it works on the cache only while it has
the lock, and nobody gets the lock but itself. -/
structure Does (i : Nat) (s s' : State D) : Prop where
  inv : Inv s → Inv s'
  clock : s'.clock = s.clock
  owner : s'.owner = s.owner ∨ s.owner = none ∧ s'.owner = some i ∨
    s.owner = some i ∧ s'.owner = none
  cache : s.owner = some i ∨ s'.cached = s.cached ∧ s'.asked = s.asked ∧ s'.log = s.log
  kept : ∀ f ∈ s.log, f.stamp ≠ none ∨ D.accept f.answer = none → f ∈ s'.log

theorem Does.around {i j : Nat} {s s' : State D} (hij : i ≠ j) (h : Does i s s') :
    Around j s s' := by
  refine ⟨Int.le_of_eq h.clock.symm, fun ho => ?_, fun ho => ?_, h.kept⟩
  · have hi : s.owner ≠ some i := fun hi => hij (Option.some.inj (hi.symm.trans ho))
    refine ⟨?_, h.cache.resolve_left hi⟩
    rcases h.owner with heq | ⟨hnone, -⟩ | ⟨hi', -⟩
    · rw [heq, ho]
    · rw [ho] at hnone
      cases hnone
    · exact absurd hi' hi
  · rcases h.owner with heq | ⟨-, hi⟩ | ⟨-, hnone⟩
    · rwa [heq]
    · rw [hi]
      exact fun heq => hij (Option.some.inj heq)
    · rw [hnone]
      exact fun heq => by cases heq

/-- The world and the clock move on. -/
theorem env_around {e : Env D} {s s' : State D} (h : env e s = some s') (i : Nat) :
    Around i s s' ∧ (Inv s → Inv s') := by
  cases e with
  | tick d =>
    cases h
    have hclock : s.clock ≤ s.clock + d := by omega
    refine ⟨⟨hclock, fun ho => ⟨ho, rfl, rfl, rfl⟩, fun ho => ho, fun _ hf _ => hf⟩, fun hinv => ?_⟩
    refine ⟨hinv.apart, fun f hf => ?_, hinv.seen, fun t ht => ?_, hinv.free, hinv.tail,
      hinv.backed, hinv.newest⟩
    · obtain ⟨hstart, hfinish, hstamp⟩ := hinv.past f hf
      exact ⟨hstart, Int.le_trans hfinish hclock, fun c hc =>
        ⟨(hstamp c hc).1, Int.le_trans (hstamp c hc).2 hclock⟩⟩
    · obtain ⟨hle, hover, hsettled⟩ := hinv.asked t ht
      exact ⟨Int.le_trans hle hclock, hover, hsettled⟩
  | world e =>
    obtain ⟨w, hw, rfl⟩ := Option.map_eq_some_iff.mp h
    refine ⟨⟨Int.le_refl _, fun ho => ⟨ho, rfl, rfl, rfl⟩, fun ho => ho, fun _ hf _ => hf⟩,
      fun hinv => ?_⟩
    refine ⟨hinv.apart, hinv.past, fun f hf => ?_, hinv.asked, hinv.free, hinv.tail, hinv.backed,
      hinv.newest⟩
    exact ⟨(hinv.seen f hf).1.tail ⟨e, hw⟩, (hinv.seen f hf).2⟩

def discipline (D : Design) : Discipline (machine D) where
  adm := fun _ => True
  inv := Inv
  unborn := fun n s => s.owner ≠ some n
  guar := fun i _ => Does i
  interf := fun i _ => Around i
  refl := fun i _ s => Around.refl i s
  trans := Around.trans
  guar_inv := fun hinv _ h => h.inv hinv
  guar_interf := fun hij _ _ h => h.around hij
  env_inv := fun hinv _ h => (env_around h 0).2 hinv
  env_interf := fun _ _ h => (env_around h _).1
  start_inv := fun hinv _ h => by cases h; exact hinv
  start_interf := fun _ _ _ h => by cases h; exact Around.refl _ _
  unborn_interf := fun h hu => (h ⟨none, []⟩).other hu

/-! ## Calls -/

/-- Nothing newer had been stamped when the call began. -/
def Old (v : D.Value) (l : Caller D) (s : State D) : Prop :=
  (v = D.zero ∧ ∀ g ∈ l.before, g.stamp = none) ∨
    ∃ g ∈ s.log, ∃ c, Stamped g v c ∧ Newest l.before g

/-- What a call returns: a value that was stamped less than `ttl` before the
call read the clock, or later; or the value from before, when the call's own
fetch has failed. -/
def Post (v : D.Value) (l : Caller D) (s : State D) : Prop :=
  (∃ t f c, l.reading = some t ∧ f ∈ s.log ∧ Stamped f v c ∧ t < c + D.ttl ∧
    Newest l.before f) ∨
    ∃ f ∈ s.log, D.accept f.answer = none ∧ (∀ t, l.reading = some t → t ≤ f.start) ∧ Old v l s

/-- The stamped fetches a caller remembers are in the log. -/
def Remembers (l : Caller D) (s : State D) : Prop := ∀ g ∈ l.before, g.stamp ≠ none → g ∈ s.log

section Calls

variable {i : Nat} {l : Caller D} {s s' : State D} {v old : D.Value} {c : Int}

theorem Stamped.kept (h : Stamped f v c) : f.stamp ≠ none := by simp [h.stamp]

theorem Old.around (h : Old v l s) (hs : Around i s s') : Old v l s' := by
  rcases h with hzero | ⟨g, hg, c, hstamped, hnew⟩
  · exact .inl hzero
  · exact .inr ⟨g, hs.kept g hg (.inl hstamped.kept), c, hstamped, hnew⟩

theorem Post.around (h : Post v l s) (hs : Around i s s') : Post v l s' := by
  rcases h with ⟨t, f, c, hl, hf, hstamped, hlt⟩ | ⟨f, hf, hfail, ht, hold⟩
  · exact .inl ⟨t, f, c, hl, hs.kept f hf (.inl hstamped.kept), hstamped, hlt⟩
  · exact .inr ⟨f, hs.kept f hf (.inr hfail), hfail, ht, hold.around hs⟩

theorem Remembers.around (h : Remembers l s) (hs : Around i s s') : Remembers l s' :=
  fun g hg hstamp => hs.kept g (h g hg hstamp) (.inl hstamp)

theorem Remembers.newest (h : Remembers l s) (hf : Newest s.log f) :
    Newest l.before f := fun g hg hstamp => hf g (h g hg hstamp) hstamp

/-- The caller has the lock, and no fetch is under way. -/
structure Has (i : Nat) (s : State D) : Prop where
  owner : s.owner = some i
  asked : s.asked = none
  settled : Settled s.log

theorem Has.around (h : Has i s) (hs : Around i s s') :
    Has i s' ∧ s'.cached = s.cached ∧ s'.log = s.log := by
  obtain ⟨ho, hc, ha, hl⟩ := hs.owned h.owner
  exact ⟨⟨ho, ha.trans h.asked, hl ▸ h.settled⟩, hc, hl⟩

/-- The end of a call. -/
theorem robust_unlock (h : Has i s) (hpost : Post v l s) :
    Robust (discipline D) i (do perform .unlock; return v) Post l s := by
  intro s₁ h₁ _ ch r l' s₂ hex _
  obtain ⟨hhas, -, -⟩ := h.around h₁
  cases hex
  refine ⟨⟨fun hinv => ⟨hinv.apart, hinv.past, hinv.seen, hinv.asked,
    fun _ => ⟨hhas.asked, hhas.settled⟩, hinv.tail, hinv.backed, hinv.newest⟩, rfl,
    .inr (.inr ⟨hhas.owner, rfl⟩), .inl hhas.owner, fun _ hf _ => hf⟩, fun s₃ h₃ _ => ?_⟩
  have hpost₁ : Post v l s₁ := hpost.around h₁
  exact Post.around (s := { s₁ with owner := none }) hpost₁ h₃

/-- Every fetch of the log is over, and a new one may begin. -/
def Due (s : State D) : Prop := ∀ f ∈ s.log, Over D s.clock f

theorem Inv.ask (h : Inv s) (hhas : Has i s) (hdue : Due s) :
    Inv { s with asked := some s.clock } := by
  refine ⟨h.apart, h.past, h.seen, fun t ht => ?_, fun hfree => ?_, h.tail, h.backed, h.newest⟩
  · cases ht
    exact ⟨Int.le_refl _, hdue, hhas.settled⟩
  · exact absurd (hhas.owner.symm.trans hfree) (by simp)

theorem Inv.answer {t : Int} (h : Inv s) (howner : s.owner = some i) (hasked : s.asked = some t)
    (ch : D.Choice) :
    Inv { s with
      asked := none
      log := ⟨t, s.clock, s.world, D.look ch s.world, none⟩ :: s.log } := by
  obtain ⟨hle, hover, hsettled⟩ := h.asked t hasked
  refine ⟨List.pairwise_cons.mpr ⟨fun f hf => ⟨hover f hf, (h.seen f hf).1⟩, h.apart⟩,
    fun f hf => ?_, fun f hf => ?_, fun t ht => ?_, fun hfree => ?_, hsettled, fun v c hc => ?_,
    fun f hf c hc => ?_⟩
  · rcases List.mem_cons.mp hf with rfl | hf
    · exact ⟨hle, Int.le_refl _, fun c hc => by cases hc⟩
    · exact h.past f hf
  · rcases List.mem_cons.mp hf with rfl | hf
    · exact ⟨.refl, ch, rfl⟩
    · exact h.seen f hf
  · cases ht
  · exact absurd (howner.symm.trans hfree) (by simp)
  · obtain ⟨f, hf, hstamped, hnew⟩ := h.backed v c hc
    refine ⟨f, List.mem_cons_of_mem _ hf, hstamped, fun g hg hg' => ?_⟩
    rcases List.mem_cons.mp hg with rfl | hg
    · exact absurd rfl hg'
    · exact hnew g hg hg'
  · rcases List.mem_cons.mp hf with rfl | hf
    · cases hc
    · exact h.newest f hf c hc

/-- The latest fetch of a log, stamped, is the newest of it. -/
theorem newest_head {fs : List (Fetch D)} {t : Option Int} (h : (f :: fs).Pairwise (Apart D)) :
    Newest ({ f with stamp := t } :: fs) { f with stamp := t } := by
  intro g hg _
  rcases List.mem_cons.mp hg with rfl | hg
  · exact .refl
  · exact ((List.pairwise_cons.mp h).1 g hg).world

/-- A reading of the clock from after the latest fetch is its stamp. -/
theorem Inv.store {fs : List (Fetch D)} {t : Int} (h : Inv s) (howner : s.owner = some i)
    (hasked : s.asked = none) (hlog : s.log = f :: fs) (hvalue : D.accept f.answer = some v)
    (hclock : t ≤ s.clock) (hlate : ∀ g ∈ s.log, g.finish ≤ t ∧ ∀ c, g.stamp = some c → c ≤ t) :
    Inv { s with cached := some (v, t), log := { f with stamp := some t } :: fs } := by
  have hapart := h.apart
  rw [hlog] at hapart
  have hcons := List.pairwise_cons.mp hapart
  have hfs : ∀ g ∈ fs, g ∈ s.log := fun g hg => hlog ▸ List.mem_cons_of_mem f hg
  have hf : f ∈ s.log := hlog ▸ List.mem_cons_self
  refine ⟨List.pairwise_cons.mpr ⟨fun g hg => ⟨(hcons.1 g hg).time, (hcons.1 g hg).world⟩, hcons.2⟩,
    fun g hg => ?_, fun g hg => ?_, fun t ht => ?_, fun hfree => ?_, ?_, fun v' c hc => ?_,
    fun g hg c hc => ⟨v, t, rfl, ?_⟩⟩
  · rcases List.mem_cons.mp hg with rfl | hg
    · obtain ⟨hstart, hfinish, -⟩ := h.past f hf
      refine ⟨hstart, hfinish, fun c hc => ?_⟩
      cases hc
      exact ⟨(hlate f hf).1, hclock⟩
    · exact h.past g (hfs g hg)
  · rcases List.mem_cons.mp hg with rfl | hg
    · exact h.seen f hf
    · exact h.seen g (hfs g hg)
  · rw [show s.asked = none from hasked] at ht
    cases ht
  · exact absurd (howner.symm.trans hfree) (by simp)
  · have htail := h.tail
    rw [hlog] at htail
    exact htail
  · cases hc
    exact ⟨_, List.mem_cons_self, ⟨hvalue, rfl⟩, newest_head hapart⟩
  · rcases List.mem_cons.mp hg with rfl | hg
    · cases hc
      exact Int.le_refl _
    · exact (hlate g (hfs g hg)).2 c hc

/-- The latest fetch is in the log and its value goes into the cache. -/
theorem robust_store {fs : List (Fetch D)} (httl : 0 < D.ttl) (howner : s.owner = some i)
    (hasked : s.asked = none) (hlog : s.log = f :: fs) (hsettled : Settled fs)
    (hvalue : D.accept f.answer = some v) (hnew : f.stamp = none) (hmem : Remembers l s)
    (hl : ∀ t, l.reading = some t → t ≤ f.start) :
    Robust (discipline D) i (do
      let stamp : Int ← perform .now
      perform (.store v stamp)
      perform .unlock
      return v) Post l s := by
  intro s₁ h₁ hinv₁ ch₁ r₁ l₁ s₂ hex₁ _
  obtain ⟨ho₁, -, ha₁, hl₁⟩ := h₁.owned howner
  cases hex₁
  refine ⟨⟨fun hinv => hinv, rfl, .inl rfl, .inr ⟨rfl, rfl, rfl⟩, fun _ hf _ => hf⟩, ?_⟩
  intro s₃ h₃ hinv₃ ch₃ r₃ l₃ s₄ hex₃ _
  obtain ⟨ho₃, -, ha₃, hl₃⟩ := h₃.owned ho₁
  cases hex₃
  have hasked₃ : s₃.asked = none := ha₃.trans (ha₁.trans hasked)
  have hlog₁ : s₁.log = f :: fs := hl₁.trans hlog
  have hlog₃ : s₃.log = f :: fs := hl₃.trans hlog₁
  have hlate : ∀ g ∈ s₁.log, g.finish ≤ s₁.clock ∧ ∀ c, g.stamp = some c → c ≤ s₁.clock :=
    fun g hg => ⟨(hinv₁.past g hg).2.1, fun c hc => ((hinv₁.past g hg).2.2 c hc).2⟩
  have hstart : f.start ≤ s₁.clock := by
    obtain ⟨hs, hf, -⟩ := hinv₁.past f (hlog₁ ▸ List.mem_cons_self)
    omega
  have hstamp : stampLatest s₁.clock s₃.log = { f with stamp := some s₁.clock } :: fs := by
    rw [hlog₃, stampLatest]
  refine ⟨⟨fun hinv => ?_, rfl, .inl rfl, .inl ho₃, fun g hg hg' => ?_⟩, ?_⟩
  · simp only [hstamp]
    exact hinv.store ho₃ hasked₃ hlog₃ hvalue h₃.clock (by rwa [hl₃])
  · rw [hlog₃] at hg
    simp only [hstamp]
    rcases List.mem_cons.mp hg with rfl | hg
    · -- the fetch itself has no stamp yet, and was accepted
      simp [hnew, hvalue] at hg'
    · exact List.mem_cons_of_mem _ hg
  · refine robust_unlock ⟨ho₃, hasked₃, ?_⟩ (.inl ⟨l.reading.getD s₁.clock,
      { f with stamp := some s₁.clock }, s₁.clock, rfl, ?_, ⟨hvalue, rfl⟩, ?_, ?_⟩)
    · simp only [hstamp]
      exact List.forall_mem_cons.mpr ⟨fun _ => by simp, hsettled⟩
    · simp [hstamp]
    · cases hreading : l.reading with
      | none => simp only [Option.getD_none]; omega
      | some t =>
        have ht := hl t hreading
        simp only [Option.getD_some]
        omega
    · intro g hg hg'
      have hmem₃ := (hmem.around h₁).around h₃ g hg hg'
      rw [hlog₃] at hmem₃
      rcases List.mem_cons.mp hmem₃ with rfl | hgs
      · exact absurd hnew hg'
      · exact newest_head (hlog₃ ▸ hinv₃.apart) g (List.mem_cons_of_mem _ hgs) hg'

theorem Due.around (h : Due s) (hhas : Has i s) (hs : Around i s s') : Due s' := by
  intro f hf
  rw [(hhas.around hs).2.2] at hf
  obtain ⟨hfinish, hstamp⟩ := h f hf
  exact ⟨Int.le_trans hfinish hs.clock, fun c hc => Int.le_trans (hstamp c hc) hs.clock⟩

/-- A fetch by a caller that has the lock and found nothing fresh. -/
theorem robust_refresh (httl : 0 < D.ttl) (h : Has i s) (hdue : Due s) (hmem : Remembers l s)
    (hl : ∀ t, l.reading = some t → t ≤ s.clock) (hold : Old old l s) :
    Robust (discipline D) i (refresh old) Post l s := by
  intro s₁ h₁ hinv₁ ch₁ r₁ l₁ s₂ hex₁ _
  obtain ⟨hhas₁, -, hl₁⟩ := h.around h₁
  cases hex₁
  have hdue₁ : Due s₁ := hdue.around h h₁
  refine ⟨⟨fun hinv => hinv.ask hhas₁ hdue₁, rfl, .inl rfl, .inl hhas₁.owner,
    fun _ hf _ => hf⟩, ?_⟩
  intro s₃ h₃ hinv₃ ch₃ r₃ l₃ s₄ hex₃ _
  obtain ⟨ho₃, -, ha₃, hl₃⟩ := h₃.owned hhas₁.owner
  have hasked : s₃.asked = some s₁.clock := ha₃
  have hlog₃ : s₃.log = s.log := hl₃.trans hl₁
  change exec i ch₃ .answer l s₃ = some (r₃, l₃, s₄) at hex₃
  simp only [exec, hasked] at hex₃
  cases hex₃
  refine ⟨⟨fun hinv => hinv.answer ho₃ hasked _, rfl, .inl rfl, .inl ho₃,
    fun _ hf _ => List.mem_cons_of_mem _ hf⟩, ?_⟩
  have hread : ∀ t, l.reading = some t → t ≤ s₁.clock := fun t ht => Int.le_trans (hl t ht) h₁.clock
  have hsettled : Settled s₃.log := hlog₃ ▸ h.settled
  change Robust (discipline D) i (settle old (D.look ch₃ s₃.world)) Post l _
  unfold settle
  split
  · next v hvalue =>
    refine robust_store httl ho₃ rfl rfl hsettled hvalue rfl (fun g hg hg' => ?_) hread
    exact List.mem_cons_of_mem _ (hlog₃ ▸ hmem g hg hg')
  · next hfail =>
    refine robust_unlock ⟨ho₃, rfl,
        List.forall_mem_cons.mpr ⟨fun hne => absurd hfail hne, hsettled⟩⟩
      (.inr ⟨_, List.mem_cons_self, hfail, hread, ?_⟩)
    rcases hold with hzero | ⟨g, hg, c, hstamped⟩
    · exact .inl hzero
    · exact .inr ⟨g, List.mem_cons_of_mem _ (hlog₃ ▸ hg), c, hstamped⟩

/-- A value that was found with its stamp, at a reading of the clock. -/
theorem robust_consult {t : Int} (httl : 0 < D.ttl) (h : Has i s) (hcached : s.cached = some (v, c))
    (ht : t ≤ s.clock) (hmem : Remembers l s) (hl : l.reading = some t) :
    Robust (discipline D) i (consult v c t) Post l s := by
  refine Robust.of_interf fun s' hs hinv => ?_
  obtain ⟨hhas, hc, -⟩ := h.around hs
  obtain ⟨g, hg, hstamped, hnew⟩ := hinv.backed v c (hc.trans hcached)
  have hbefore : Newest l.before g := (hmem.around hs).newest hnew
  unfold consult
  split
  · next hfresh =>
    exact robust_unlock hhas (.inl ⟨t, g, c, hl, hg, hstamped, by omega, hbefore⟩)
  rename_i hstale
  have ht' : t ≤ s'.clock := Int.le_trans ht hs.clock
  have hdue : Due s' := by
    intro f hf
    refine ⟨(hinv.past f hf).2.1, fun c' hc' => ?_⟩
    obtain ⟨v', c'', hcached', hle⟩ := hinv.newest f hf c' hc'
    rw [hc.trans hcached] at hcached'
    cases hcached'
    omega
  refine robust_refresh httl hhas hdue (hmem.around hs) (fun t' heq => ?_)
    (.inr ⟨g, hg, c, hstamped, hbefore⟩)
  rw [hl] at heq
  cases heq
  exact ht'

/-- Nothing was found. -/
theorem robust_first (httl : 0 < D.ttl) (h : Has i s) (hcached : s.cached = none)
    (hmem : Remembers l s) (hl : l.reading = none) :
    Robust (discipline D) i (refresh D.zero) Post l s := by
  refine Robust.of_interf fun s' hs hinv => ?_
  obtain ⟨hhas, hc, -⟩ := h.around hs
  have hunstamped : ∀ f ∈ s'.log, f.stamp = none := by
    intro f hf
    cases hstamp : f.stamp with
    | none => rfl
    | some c =>
      obtain ⟨v, c', hcached', -⟩ := hinv.newest f hf c hstamp
      rw [hc.trans hcached] at hcached'
      cases hcached'
  have hdue : Due s' := fun f hf =>
    ⟨(hinv.past f hf).2.1, fun c hc' => by rw [hunstamped f hf] at hc'; cases hc'⟩
  refine robust_refresh httl hhas hdue (hmem.around hs) (fun t ht => ?_)
    (.inl ⟨rfl, fun g hg => ?_⟩)
  · rw [hl] at ht
    cases ht
  · cases hstamp : g.stamp with
    | none => rfl
    | some c =>
      have hne : g.stamp ≠ none := by simp [hstamp]
      exact absurd (hunstamped g (hmem.around hs g hg hne)) hne

theorem robust_lookUp (httl : 0 < D.ttl) (h : Has i s) (hmem : Remembers l s)
    (hl : l.reading = none) : Robust (discipline D) i (lookUp s.cached) Post l s := by
  cases hcached : s.cached with
  | none => exact robust_first httl h hcached hmem hl
  | some x =>
    obtain ⟨v, c⟩ := x
    intro s₁ h₁ hinv₁ ch₁ r₁ l₁ s₂ hex₁ _
    obtain ⟨hhas₁, hc₁, -⟩ := h.around h₁
    cases hex₁
    refine ⟨⟨fun hinv => hinv, rfl, .inl rfl, .inr ⟨rfl, rfl, rfl⟩, fun _ hf _ => hf⟩, ?_⟩
    exact robust_consult httl hhas₁ (hc₁.trans hcached) (Int.le_refl _) (hmem.around h₁)
      (by rw [hl, Option.getD_none])

/-- One call, from the lock on. -/
theorem robust_get (httl : 0 < D.ttl) (hmem : Remembers l s) (hl : l.reading = none) :
    Robust (discipline D) i get Post l s := by
  intro s₁ h₁ hinv₁ ch₁ r₁ l₁ s₂ hex₁ _
  change exec i ch₁ .lock l s₁ = some (r₁, l₁, s₂) at hex₁
  simp only [exec] at hex₁
  split at hex₁
  · next hfree =>
    cases hex₁
    obtain ⟨hasked, hsettled⟩ := hinv₁.free hfree
    refine ⟨⟨fun hinv => ⟨hinv.apart, hinv.past, hinv.seen, hinv.asked, (fun ho => by cases ho),
      hinv.tail, hinv.backed, hinv.newest⟩, rfl, .inr (.inl ⟨hfree, rfl⟩), .inr ⟨rfl, rfl, rfl⟩,
      fun _ hf _ => hf⟩, ?_⟩
    intro s₃ h₃ hinv₃ ch₃ r₃ l₃ s₄ hex₃ _
    have hhas₁ : Has i { s₁ with owner := some i } := ⟨rfl, hasked, hsettled⟩
    obtain ⟨hhas₃, -, -⟩ := hhas₁.around h₃
    cases hex₃
    refine ⟨⟨fun hinv => hinv, rfl, .inl rfl, .inr ⟨rfl, rfl, rfl⟩, fun _ hf _ => hf⟩, ?_⟩
    have hmem₁ : Remembers l s₁ := hmem.around h₁
    have hmem₃ : Remembers l s₃ := Remembers.around (s := { s₁ with owner := some i }) hmem₁ h₃
    exact robust_lookUp httl hhas₃ hmem₃ hl
  · cases hex₁

end Calls

/-! ## Runs -/

section Runs

variable {p q : Pool (machine D)} {s : State D} {i j : Nat} {t : Thread (machine D)}
variable {v : D.Value}

/-- Every run keeps the invariant, and every call that has returned did so
with a fresh value or after a failed fetch of its own. -/
theorem poolOk_reaches (httl : 0 < D.ttl) (hinv : Inv s) (hfree : s.owner = none)
    (h : (Pool.empty s : Pool (machine D)).Reaches p) :
    PoolOk (discipline D) (fun _ _ => Post) p := by
  refine PoolOk.reaches (fun _ _ _ hst => ?_) (fun _ _ => trivial) (PoolOk.empty hinv fun n => ?_) h
    trivial
  · cases hst
    exact robust_get httl (fun _ hg _ => hg) rfl
  · change s.owner ≠ some n
    simp [hfree]

/-- Of two fetches whose values were accepted the later begins when the
other's value has been in the cache for `ttl`. -/
theorem Inv.spaced (h : Inv s) :
    s.log.Pairwise fun later earlier => D.accept earlier.answer ≠ none →
      earlier.finish + D.ttl ≤ later.start := by
  -- in the tail, every accepted value has its stamp
  have hstep : ∀ later ∈ s.log, ∀ earlier ∈ s.log, Apart D later earlier →
      (D.accept earlier.answer ≠ none → earlier.stamp ≠ none) →
      D.accept earlier.answer ≠ none → earlier.finish + D.ttl ≤ later.start := by
    intro later _ earlier hmem hapart hstamp haccept
    obtain ⟨c, hc⟩ := Option.ne_none_iff_exists'.mp (hstamp haccept)
    have hle := ((h.past earlier hmem).2.2 c hc).1
    have hover := hapart.time.2 c hc
    omega
  have htail := h.tail
  cases hlog : s.log with
  | nil => exact .nil
  | cons f fs =>
    have hapart := h.apart
    rw [hlog] at hstep hapart htail
    rw [List.pairwise_cons] at hapart ⊢
    refine ⟨fun g hg => hstep f List.mem_cons_self g (List.mem_cons_of_mem f hg) (hapart.1 g hg)
      (htail g hg), hapart.2.imp_of_mem fun hg hg' hgg' => ?_⟩
    exact hstep _ (List.mem_cons_of_mem f hg) _ (List.mem_cons_of_mem f hg') hgg' (htail _ hg')

/-- No step changes what a caller remembers of its beginning. -/
theorem exec_before {ch : D.Choice} {o : Op D} {r : o.Res} {l l' : Caller D} {s' : State D}
    (h : exec i ch o l s = some (r, l', s')) : l'.before = l.before := by
  cases o with
  | lock =>
    simp only [exec] at h
    split at h
    · cases h
      rfl
    · cases h
  | answer =>
    simp only [exec] at h
    split at h
    · cases h
    · cases h
      rfl
  | _ =>
    cases h
    rfl

/-- What has a stamp keeps it. -/
def Keeps (s s' : State D) : Prop := ∀ f ∈ s.log, f.stamp ≠ none → f ∈ s'.log

theorem keeps_step (hok : PoolOk (discipline D) (fun _ _ => Post) p) (h : p.Step q) :
    Keeps p.shared q.shared :=
  hok.step_rel (R := Keeps) (fun hdoes f hf hstamp => Does.kept hdoes f hf (.inl hstamp))
    (fun _ henv f hf hstamp => (env_around henv 0).1.kept f hf (.inl hstamp))
    (fun _ hstart f hf _ => by cases hstart; exact hf) h trivial

/-- What had a stamp when a call began is in its memory. -/
theorem remembers_reaches (hok : ∀ {a}, p.Reaches a → PoolOk (discipline D) (fun _ _ => Post) a)
    (h : p.Reaches q) (hf : f ∈ p.shared.log) (hstamp : f.stamp ≠ none) :
    f ∈ q.shared.log ∧
      ∀ j t, p.threads.length ≤ j → q.threads[j]? = some t → f ∈ t.loc.before := by
  induction h with
  | refl =>
    refine ⟨hf, fun j t hj ht => ?_⟩
    rw [List.getElem?_eq_none hj] at ht
    cases ht
  | tail ha hs ih =>
    obtain ⟨hlog, hthreads⟩ := ih
    refine ⟨keeps_step (hok ha) hs f hlog hstamp, fun j t hj ht => ?_⟩
    obtain ⟨c, l, s, hstart, rfl⟩ | ⟨i, ch, u, o, k, r, l, s, hu, -, hex, rfl⟩ | ⟨e, s, -, rfl⟩ :=
      Pool.step_cases hs
    · rw [List.getElem?_append] at ht
      split at ht
      · exact hthreads j t hj ht
      rw [List.getElem?_singleton] at ht
      split at ht
      · cases hstart
        cases ht
        exact hlog
      · cases ht
    · by_cases hij : i = j
      · subst hij
        rw [List.getElem?_set_self (List.getElem?_eq_some_iff.mp hu).1] at ht
        cases ht
        rw [exec_before hex]
        exact hthreads i u hj hu
      · rw [List.getElem?_set_ne hij] at ht
        exact hthreads j t hj ht
    · exact hthreads j t hj ht

/-- Where a returned value comes from: the zero value, or a fetch that left
its stamp and saw a world no older than what had a stamp when the call
began. -/
theorem Post.source {l : Caller D} (h : Post v l s) :
    (v = D.zero ∧ ∀ g ∈ l.before, g.stamp = none) ∨
      ∃ f ∈ s.log, ∃ c, Stamped f v c ∧ Newest l.before f := by
  rcases h with ⟨t, f, c, -, hf, hstamped, -, hnew⟩ | ⟨-, -, -, -, hold⟩
  · exact .inr ⟨f, hf, c, hstamped, hnew⟩
  · exact hold

/-- A call that begins after a fetch has left its stamp returns the value of
a fetch that saw a world no older. -/
theorem returned_after (hok : ∀ {a}, p.Reaches a → PoolOk (discipline D) (fun _ _ => Post) a)
    (h : p.Reaches q) (hf : f ∈ p.shared.log) (hstamp : f.stamp ≠ none) (hj : p.threads.length ≤ j)
    (ht : q.threads[j]? = some t) (hv : t.prog.result? = some v) :
    ∃ g ∈ q.shared.log, ∃ c, Stamped g v c ∧ Later D f.world g.world := by
  have hmem := (remembers_reaches hok h hf hstamp).2 j t hj ht
  rcases ((hok h).returned ht hv).source with ⟨-, hnone⟩ | ⟨g, hg, c, hstamped, hnew⟩
  · exact absurd (hnone f hmem) hstamp
  · exact ⟨g, hg, c, hstamped, hnew f hmem hstamp⟩

end Runs

end Berth.Cache
