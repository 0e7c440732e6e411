/-
Berth.Operator.Discipline — what a thread of the operators relies on and
what it guarantees.

Between two steps of a thread the site `Carries` on, and nobody notes
anything in the thread's name. With serial passes a pass also relies on
the seals of its own lease: while it runs, nobody else breaks them.

Most effects are gentle. They keep the invariant whatever their arguments
are, and the thread that performs them loses nothing it knew. The others
are lease writes, requests to the central server and the commit of a
workload write; each has a rule of its own that names what justifies it.
-/
import Berth.Interleave.PoolTheorems
import Berth.Operator.Steps

namespace Berth.Operator

open Berth.Interleave Berth.Lease Berth.Api Berth.Client

variable {ι : Type} {cfg : Server.Config} {F : Fleet ι} {j : ι} {i : Nat} {t t' : Task ι}
variable {s s' s'' : Site ι cfg} {c c' : Cluster} {l m : BerthLease} {v : Version}
variable {e : Event ClusterSig} {o : ClusterOp}

/-! ## Guarantee and interference -/

/-- What a thread knows of its surroundings stays true. -/
structure Keeps (F : Fleet ι) (i : Nat) (t : Task ι) (s s' : Site ι cfg) : Prop where
  carries : Carries s s'
  own : F.serial = true → ∀ k, t.what.lease? = some k →
    (s'.clusters t.cluster).running k = some i →
    (s.clusters t.cluster).running k = some i ∧
      ∀ rv ps, Sealed (s.clusters t.cluster) k rv ps → Sealed (s'.clusters t.cluster) k rv ps

theorem Keeps.refl (F : Fleet ι) (i : Nat) (t : Task ι) (s : Site ι cfg) : Keeps F i t s s :=
  ⟨Carries.refl s, fun _ _ _ hr => ⟨hr, fun _ _ h => h⟩⟩

theorem Keeps.trans (h : Keeps F i t s s') (h' : Keeps F i t s' s'') : Keeps F i t s s'' := by
  refine ⟨h.carries.trans h'.carries, fun hserial k hk hr => ?_⟩
  obtain ⟨hr', hseal'⟩ := h'.own hserial k hk hr
  obtain ⟨hr₀, hseal⟩ := h.own hserial k hk hr'
  exact ⟨hr₀, fun rv ps hs => hseal' rv ps (hseal rv ps hs)⟩

theorem Keeps.evolves (h : Keeps F i t s s') :
    Evolves (s.clusters t.cluster) (s'.clusters t.cluster) := h.carries.clusters t.cluster

/-- What happens between two steps of thread `i`. -/
structure Interf (F : Fleet ι) (i : Nat) (t : Task ι) (s s' : Site ι cfg) : Prop
    extends Keeps F i t s s' where
  events : ∀ k, (s'.clusters k).events i = (s.clusters k).events i

theorem Interf.refl (F : Fleet ι) (i : Nat) (t : Task ι) (s : Site ι cfg) : Interf F i t s s :=
  ⟨Keeps.refl F i t s, fun _ => rfl⟩

theorem Interf.trans (h : Interf F i t s s') (h' : Interf F i t s' s'') : Interf F i t s s'' :=
  ⟨h.toKeeps.trans h'.toKeeps, fun k => (h'.events k).trans (h.events k)⟩

/-- A step of thread `i`. -/
structure Moves (F : Fleet ι) (i : Nat) (t : Task ι) (s s' : Site ι cfg) : Prop where
  carries : Carries s s'
  running : ∀ j k n, (s'.clusters j).running k = some n → (s.clusters j).running k = some n
  events : ∀ j n, n ≠ i → (s'.clusters j).events n = (s.clusters j).events n
  own : F.serial = true → ∀ k, t.what.lease? = some k →
    (s.clusters t.cluster).running k = some i
  sealed : ∀ j k, (j = t.cluster → t.what.lease? ≠ some k) → ∀ rv ps,
    Sealed (s.clusters j) k rv ps → Sealed (s'.clusters j) k rv ps
  tidy : ∀ j, Tidy (s.clusters j) (s'.clusters j)

theorem Moves.interf {n : Nat} (h : Moves F i t s s') (hn : i ≠ n) : Interf F n t' s s' := by
  refine ⟨⟨h.carries, fun hserial k hk hr => ?_⟩, fun j => h.events j n hn.symm⟩
  have hr₀ := h.running _ _ _ hr
  refine ⟨hr₀, h.sealed _ _ fun hj hk' => ?_⟩
  -- two passes would run for one lease
  have hi := h.own hserial k hk'
  rw [← hj, hr₀, Option.some.injEq] at hi
  exact hn hi.symm

theorem Calm.interf (h : Calm s s') : Interf F i t s s' := by
  refine ⟨⟨h.carries, fun _ k _ hr => ⟨h.running _ k i hr, h.sealed _ k⟩⟩, fun k => ?_⟩
  unfold Cluster.events
  rw [h.journal k]

/-! ## Effects -/

/-- What an effect of thread `t` does, apart from being noted. -/
structure Acts (F : Fleet ι) (t : Task ι) (s s' : Site ι cfg) : Prop where
  ok : s'.Ok F
  carries : Carries s s'
  running : ∀ j k n, (s'.clusters j).running k = some n → (s.clusters j).running k = some n
  journal : ∀ j, (s'.clusters j).journal = (s.clusters j).journal
  sealed : ∀ j k, (j = t.cluster → t.what.lease? ≠ some k) → ∀ rv ps,
    Sealed (s.clusters j) k rv ps → Sealed (s'.clusters j) k rv ps
  tidy : ∀ j, Tidy (s.clusters j) (s'.clusters j)

theorem StepOk.acts (h : StepOk F s s') : Acts F t s s' :=
  ⟨h.ok, h.calm.carries, h.calm.running, h.calm.journal, fun j k _ => h.calm.sealed j k, h.tidy⟩

theorem events_note : (c.note i e).events i = e :: c.events i := by
  simp [Cluster.note, Cluster.events]

theorem events_note_ne {n : Nat} (h : n ≠ i) :
    (c.note i e).events n = c.events n := by
  simp [Cluster.note, Cluster.events, h.symm]

/-- Effects that need no justification. -/
def ClusterOp.gentle : ClusterOp → Bool
  | .updateStatus _ | .updateLease _ | .post _ _ _ | .commit _ _ _ => false
  | _ => true

/-- Effects that stay in the cluster. -/
def ClusterOp.inCluster : ClusterOp → Bool
  | .post _ _ _ | .await _ _ => false
  | _ => true

/-- Effects of which the journal has to be backed by something. -/
def ClusterOp.vouches : ClusterOp → Bool
  | .submit _ | .awaitWrite _ | .getObject _ | .post _ _ _ => true
  | _ => false

theorem Entry.plain {r : o.Res} (h : o.vouches = false) : Entry F c ⟨o, r⟩ := by
  refine ⟨fun _ _ heq => ?_, fun _ heq => ?_, fun _ _ _ _ heq => ?_, fun _ _ _ heq => ?_⟩
  all_goals
    cases heq
    cases h

/-- Nothing changes. -/
theorem unchanged_ok (h : s.Ok F) (hb : Becomes s s' j (s.clusters j)) : StepOk F s s' :=
  ⟨h.unchanged hb, Calm.alike hb (Alike.refl _) (fun _ _ hn => hn) rfl rfl,
    hb.tidy (Tidy.of_eq rfl)⟩

/-- A request is refused. -/
theorem refuse_ok {id : Nat} {p : Pending} {e : ApiErr} (h : s.Ok F)
    (hp : (s.clusters j).requests[id]? = some p) (hopen : p.answer = none)
    (hb : Becomes s s' j ((s.clusters j).reply id (.error e))) : StepOk F s s' :=
  ⟨h.alike hb (alike_reply hp hopen) (h.clusters j).late (h.clusters j).fence
      ((h.ledgers j).reply hp hopen fun _ heq => (nomatch heq)),
    Calm.alike hb (alike_reply hp hopen) (fun _ _ hn => hn) rfl rfl, hb.tidy (Tidy.of_eq rfl)⟩

/-- A DELETE. -/
theorem execDelete_ok {ch : Choice} {o : Object} {clock : Time} {r : Except ApiErr Unit}
    (h : s.Ok F) (hx : execDelete ch clock o (s.clusters j) = some (r, c'))
    (hb : Becomes s s' j c') : StepOk F s s' := by
  unfold execDelete at hx
  split at hx
  · cases hx
    exact unchanged_ok h hb
  split at hx
  · cases hx
    exact unchanged_ok h hb
  rename_i cur hcur
  split at hx
  · cases hx
    exact unchanged_ok h hb
  split at hx
  · cases hx
    exact remove_ok h hb
  · cases hx
    exact touch_ok h hcur hb rfl rfl rfl rfl rfl id
  · cases hx
    exact remove_ok h hb
  · cases hx

/-- The API server takes up a request. -/
theorem fetch_ok {id : Nat} {p : Pending} {r : Option Review} (h : s.Ok F)
    (hp : (s.clusters j).requests[id]? = some p)
    (hx : (s.clusters j).fetch id p = (r, c')) (hb : Becomes s s' j c') : StepOk F s s' := by
  unfold Cluster.fetch at hx
  split at hx
  · cases hx
    exact unchanged_ok h hb
  rename_i hopen
  have hopen : p.answer = none := by simpa using hopen
  split at hx
  · split at hx
    · cases hx
      exact unchanged_ok h hb
    · cases hx
      exact refuse_ok h hp hopen hb
  · split at hx
    · cases hx
      exact refuse_ok h hp hopen hb
    · split at hx
      · cases hx
        exact refuse_ok h hp hopen hb
      · split at hx
        · cases hx
          exact unchanged_ok h hb
        · cases hx
          exact refuse_ok h hp hopen hb
  · cases hx
    exact unchanged_ok h hb

/-! ## Starts -/

variable [DecidableEq ι]

/-- A pass takes its lease from the work queue. -/
theorem enter_cases {n : Nat} (h : enter F n t s = some (t', s')) :
    t' = t ∧ (s' = s ∨ ∃ k, t.what.lease? = some k ∧
      s' = s.set t.cluster
        { s.clusters t.cluster with
          running := Function.update (s.clusters t.cluster).running k (some n) }) := by
  unfold enter at h
  split at h
  · cases h
    exact ⟨rfl, .inl rfl⟩
  rename_i k hk
  dsimp only at h
  split at h
  · cases h
  · cases h
    exact ⟨rfl, .inr ⟨k, hk, rfl⟩⟩

theorem alike_running (c : Cluster) (r : Key → Option Nat) : Alike c { c with running := r } :=
  ⟨rfl, rfl, rfl, List.Subset.refl _, rfl, rfl, Grows.refl _, List.suffix_refl _⟩

theorem enter_ok {n : Nat} (h : s.Ok F) (he : enter F n t s = some (t', s')) : s'.Ok F := by
  obtain ⟨_, rfl | ⟨k, _, rfl⟩⟩ := enter_cases he
  · exact h
  · exact h.alike (Becomes.set s _ _) (alike_running _ _) (h.clusters _).late (h.clusters _).fence
      ((h.ledgers _).of_eq (alike_running _ _).evolves rfl rfl rfl rfl)

theorem enter_tidy {n : Nat} (he : enter F n t s = some (t', s')) (j : ι) :
    Tidy (s.clusters j) (s'.clusters j) := by
  obtain ⟨_, rfl | ⟨k, _, rfl⟩⟩ := enter_cases he
  · exact Tidy.of_eq rfl
  · refine (Becomes.set s t.cluster _).tidy ?_ j
    exact Tidy.of_eq rfl

theorem enter_interf {n m : Nat} {t₀ : Task ι} (hn : n ≠ m)
    (he : enter F n t s = some (t', s')) : Interf F m t₀ s s' := by
  obtain ⟨_, rfl | ⟨k, _, rfl⟩⟩ := enter_cases he
  · exact Interf.refl F m t₀ _
  have hb := Becomes.set s t.cluster
    { s.clusters t.cluster with
      running := Function.update (s.clusters t.cluster).running k (some n) }
  refine ⟨⟨hb.carries (alike_running _ _).evolves, fun _ k' _ hr => ?_⟩, fun j => ?_⟩
  · by_cases hj : t₀.cluster = t.cluster
    · rw [hj, hb.here] at hr ⊢
      refine ⟨?_, fun rv ps hs => hs.of_eq rfl hs.late⟩
      by_cases hk : k' = k
      · have hr : Function.update (s.clusters t.cluster).running k (some n) k' = some m := hr
        rw [hk, Function.update_self, Option.some.injEq] at hr
        exact absurd hr hn
      · have hr : Function.update (s.clusters t.cluster).running k (some n) k' = some m := hr
        rw [Function.update_of_ne hk] at hr
        exact hr
    · rw [hb.others _ hj] at hr ⊢
      exact ⟨hr, fun _ _ hs => hs⟩
  · by_cases hj : j = t.cluster
    · rw [hj, hb.here]
      rfl
    · rw [hb.others _ hj]

/-- The discipline of the operators' threads. -/
def discipline (F : Fleet ι) (cfg : Server.Config) : Discipline (machine F cfg) where
  adm := fun _ => True
  inv := Site.Ok F
  unborn := fun _ _ => True
  guar := fun i t s s' => Moves F i t s s' ∧ s'.Ok F
  interf := Interf F
  refl := Interf.refl F
  trans := Interf.trans
  guar_inv := fun _ _ hg => hg.2
  guar_interf := fun hij _ _ hg => hg.1.interf hij
  env_inv := fun hs _ he => (env_ok hs he).ok
  env_interf := fun hs _ he => (env_ok hs he).calm.interf
  start_inv := fun hs _ he => enter_ok hs he
  start_interf := fun hn _ _ he => enter_interf hn he
  unborn_interf := fun _ _ => trivial

/-! ## Effects and the journal -/

theorem note_becomes (s : Site ι cfg) (j : ι) (i : Nat) (e : Event ClusterSig) :
    Becomes s (s.note j i e) j ((s.clusters j).note i e) := Becomes.set s j _

/-- An entry that is backed keeps the invariant and is calm for all but
its own thread. -/
theorem note_ok (h : s.Ok F) (he : Entry F (s.clusters j) e) :
    (s.note j i e).Ok F :=
  h.alike (note_becomes s j i e) (alike_note _ i e) (h.clusters j).late (h.clusters j).fence
    ((h.ledgers j).note he)

theorem note_events (s : Site ι cfg) (j k : ι) (i : Nat) (e : Event ClusterSig) {n : Nat}
    (hn : n ≠ i) : ((s.note j i e).clusters k).events n = (s.clusters k).events n := by
  by_cases hk : k = j
  · rw [hk, (note_becomes s j i e).here, events_note_ne hn]
  · rw [(note_becomes s j i e).others k hk]

theorem note_fields (s : Site ι cfg) (j k : ι) (i : Nat) (e : Event ClusterSig) :
    ((s.note j i e).clusters k).running = (s.clusters k).running ∧
      ((s.note j i e).clusters k).versions = (s.clusters k).versions ∧
      ((s.note j i e).clusters k).late = (s.clusters k).late ∧
      ((s.note j i e).clusters k).leases = (s.clusters k).leases := by
  by_cases hk : k = j
  · rw [hk, (note_becomes s j i e).here]
    exact ⟨rfl, rfl, rfl, rfl⟩
  · rw [(note_becomes s j i e).others k hk]
    exact ⟨rfl, rfl, rfl, rfl⟩

theorem note_sealed (s : Site ι cfg) (j k : ι) (i : Nat) (e : Event ClusterSig) (key : Key)
    (rv : Nat) (ps : List PermittedPod) :
    Sealed ((s.note j i e).clusters k) key rv ps ↔ Sealed (s.clusters k) key rv ps := by
  obtain ⟨_, hv, hl, _⟩ := note_fields s j k i e
  constructor
  · exact fun h => h.of_eq hv.symm (by rw [← hl]; exact h.late)
  · exact fun h => h.of_eq hv (by rw [hl]; exact h.late)

/-- An effect is made and then noted. -/
theorem Acts.noted (h : Acts F t s s') (hown : F.serial = true → ∀ k, t.what.lease? = some k →
      (s.clusters t.cluster).running k = some i) (he : Entry F (s'.clusters t.cluster) e) :
    Moves F i t s (s'.note t.cluster i e) ∧ (s'.note t.cluster i e).Ok F := by
  have hev := (note_becomes s' t.cluster i e).carries (alike_note _ i e).evolves
  refine ⟨⟨h.carries.trans hev, fun j k n hn => ?_, fun j n hn => ?_, hown, fun j k hk rv ps hs => ?_,
    fun j => ?_⟩, note_ok h.ok he⟩
  · rw [(note_fields s' t.cluster j i e).1] at hn
    exact h.running j k n hn
  · rw [note_events s' t.cluster j i e hn]
    unfold Cluster.events
    rw [h.journal j]
  · exact (note_sealed s' t.cluster j i e k rv ps).mpr (h.sealed j k hk rv ps hs)
  · intro m hm
    have hnote := (hev.clusters j)
    rw [(note_fields s' t.cluster j i e).2.2.2]
    rcases h.tidy j m hm with ⟨m', hm', hnext⟩ | ⟨hgone, hclean⟩
    · exact .inl ⟨m', hm', hnext.uid, hnext.phase, hnext.constant,
        fun hd => (hnext.cleaned hd).evolves hnote⟩
    · exact .inr ⟨hgone, fun hp hf => (hclean hp hf).evolves hnote⟩

/-- An effect that already knows of its entry. -/
theorem Acts.foretold (h : Acts F t (s.note t.cluster i e) s')
    (hown : F.serial = true → ∀ k, t.what.lease? = some k →
      (s.clusters t.cluster).running k = some i) :
    Moves F i t s s' ∧ s'.Ok F := by
  have hev := (note_becomes s t.cluster i e).carries (alike_note _ i e).evolves
  refine ⟨⟨hev.trans h.carries, fun j k n hn => ?_, fun j n hn => ?_, hown, fun j k hk rv ps hs => ?_,
    fun j m hm => ?_⟩, h.ok⟩
  · have := h.running j k n hn
    rw [(note_fields s t.cluster j i e).1] at this
    exact this
  · rw [← note_events s t.cluster j i e hn]
    unfold Cluster.events
    rw [h.journal j]
  · exact h.sealed j k hk rv ps ((note_sealed s t.cluster j i e k rv ps).mpr hs)
  · exact h.tidy j m (by rw [(note_fields s t.cluster j i e).2.2.2]; exact hm)

/-! ## Gentle effects -/

/-- A thread that acts is alive and stays what it is. -/
theorem exec_cases {ch : Choice} {r : o.Res} (h : exec F i ch o t s = some (r, t', s')) :
    t' = t ∧ (F.serial = true → ∀ k, t.what.lease? = some k →
        (s.clusters t.cluster).running k = some i) ∧
      ∃ s₁, execLive F ch o t s = some (r, s₁) ∧ s' = s₁.note t.cluster i ⟨o, r⟩ := by
  unfold exec at h
  split at h
  · next halive =>
    obtain ⟨⟨r', s₁⟩, hlive, heq⟩ := Option.map_eq_some_iff.mp h
    cases heq
    refine ⟨rfl, fun hserial k hk => ?_, s₁, hlive, rfl⟩
    simpa [alive, hserial, hk] using halive
  · cases h

/-- An effect other than a request to the central server changes one
cluster. -/
theorem execLive_local {ch : Choice} {r : o.Res} (ho : o.inCluster = true)
    (h : execLive F ch o t s = some (r, s')) :
    ∃ c', execLocal F.honest (F.config t.cluster) ch s.clock s.log o t.what (s.clusters t.cluster) =
      some (r, c') ∧ s' = s.set t.cluster c' := by
  have key : ((execLocal F.honest (F.config t.cluster) ch s.clock s.log o t.what
      (s.clusters t.cluster)).map fun x => (x.1, s.set t.cluster x.2)) = some (r, s') := by
    cases o with
    | post l k e => cases ho
    | await id b => cases ho
    | _ => exact h
  obtain ⟨⟨r', c'⟩, hx, heq⟩ := Option.map_eq_some_iff.mp key
  cases heq
  exact ⟨c', hx, rfl⟩

/-- A gentle effect is calm, and its entry is backed. -/
theorem gentle_ok {ch : Choice} {r : o.Res} (ho : o.gentle = true) (h : s.Ok F)
    (hx : execLive F ch o t s = some (r, s')) :
    StepOk F s s' ∧ Entry F (s'.clusters t.cluster) ⟨o, r⟩ := by
  by_cases hin : o.inCluster = false
  · obtain ⟨id, b, rfl⟩ : ∃ id b, o = .await id b := by
      cases o with
      | await id b => exact ⟨id, b, rfl⟩
      | post l k e => cases ho
      | _ => cases hin
    have hsame : s' = s := by
      simp only [execLive] at hx
      split at hx
      · obtain ⟨_, _, heq⟩ := Option.map_eq_some_iff.mp hx
        cases heq
        rfl
      · split at hx
        · cases hx
        · cases hx
          rfl
      · cases hx
    rw [hsame]
    exact ⟨unchanged_ok (j := t.cluster) h ⟨rfl, rfl, fun _ _ => rfl⟩, Entry.plain rfl⟩
  · obtain ⟨c', hc', rfl⟩ := execLive_local (by simpa using hin) hx
    have hb := Becomes.set s t.cluster c'
    rw [hb.here]
    cases o with
    | updateStatus l => cases ho
    | updateLease l => cases ho
    | post l k e => cases ho
    | commit id review verdict => cases ho
    | await id b => exact absurd rfl hin
    | now =>
      cases hc'
      exact ⟨unchanged_ok h hb, Entry.plain rfl⟩
    | getLease key =>
      simp only [execLocal] at hc'
      repeat' split at hc'
      all_goals
        cases hc'
        try exact ⟨unchanged_ok h hb, Entry.plain rfl⟩
    | listLeases ns =>
      simp only [execLocal] at hc'
      repeat' split at hc'
      all_goals
        cases hc'
        try exact ⟨unchanged_ok h hb, Entry.plain rfl⟩
    | listObjects apiVersion kind ns label =>
      simp only [execLocal] at hc'
      repeat' split at hc'
      all_goals
        cases hc'
        try exact ⟨unchanged_ok h hb, Entry.plain rfl⟩
    | getObject key =>
      simp only [execLocal] at hc'
      split at hc'
      · split at hc'
        · next q hq =>
          cases hc'
          refine ⟨unchanged_ok h hb, fun _ _ heq => (nomatch heq), fun _ heq => (nomatch heq),
            fun _ _ _ _ heq => (nomatch heq), fun hhon k o heq => ?_⟩
          cases heq
          exact ⟨((h.ledgers t.cluster).fences hhon).stored.fenceOk (h.clusters t.cluster).wf
            (object?_some hq).1, (object?_some hq).2⟩
        · cases hc'
          exact ⟨unchanged_ok h hb, fun _ _ heq => (nomatch heq), fun _ heq => (nomatch heq),
            fun _ _ _ _ heq => (nomatch heq), fun _ _ _ heq => (nomatch heq)⟩
      · cases hc'
        exact ⟨unchanged_ok h hb, fun _ _ heq => (nomatch heq), fun _ heq => (nomatch heq),
          fun _ _ _ _ heq => (nomatch heq), fun _ _ _ heq => (nomatch heq)⟩
      · cases hc'
    | submit o =>
      cases hc'
      refine ⟨append_ok h rfl (List.Subset.refl _) (fun _ heq => ObjectWrite.noConfusion heq) hb,
        fun o' id heq => ?_, fun _ heq => (nomatch heq), fun _ _ _ _ heq => (nomatch heq),
        fun _ _ _ heq => (nomatch heq)⟩
      cases heq
      exact ⟨_, List.getElem?_concat_length, rfl, rfl⟩
    | awaitWrite id =>
      simp only [execLocal] at hc'
      split at hc'
      · obtain ⟨a, ha, heq⟩ := Option.map_eq_some_iff.mp hc'
        cases heq
        refine ⟨unchanged_ok h hb, fun _ _ heq => (nomatch heq), fun id' heq => ?_,
          fun _ _ _ _ heq => (nomatch heq), fun _ _ _ heq => (nomatch heq)⟩
        cases heq
        exact Option.bind_eq_some_iff.mp ha
      · cases hc'
        exact ⟨unchanged_ok h hb, fun _ _ heq => (nomatch heq), fun _ heq => (nomatch heq),
          fun _ _ _ _ heq => (nomatch heq), fun _ _ _ heq => (nomatch heq)⟩
      · cases hc'
    | deleteObject o => exact ⟨execDelete_ok h hc' hb, Entry.plain rfl⟩
    | fetch id =>
      obtain ⟨p, hp, heq⟩ := Option.map_eq_some_iff.mp hc'
      exact ⟨fetch_ok h hp heq hb, Entry.plain rfl⟩
    | finish =>
      simp only [execLocal] at hc'
      split at hc'
      · next key _ =>
        cases hc'
        have ha := alike_running (s.clusters t.cluster)
          (Function.update (s.clusters t.cluster).running key none)
        refine ⟨⟨h.alike hb ha (h.clusters _).late (h.clusters _).fence
          ((h.ledgers _).of_eq ha.evolves rfl rfl rfl rfl),
          Calm.alike hb ha (fun k n hn => ?_) rfl rfl, hb.tidy (Tidy.of_eq rfl)⟩, Entry.plain rfl⟩
        have hn : Function.update (s.clusters t.cluster).running key none k = some n := hn
        by_cases hk : k = key
        · rw [hk, Function.update_self] at hn
          cases hn
        · rw [Function.update_of_ne hk] at hn
          exact hn
      · cases hc'

/-- A calm effect takes nothing from its own thread. -/
theorem Calm.noted (h : Calm s s') :
    Keeps F i t s (s'.note t.cluster i e) := by
  have hev := (note_becomes s' t.cluster i e).carries (alike_note _ i e).evolves
  refine ⟨h.carries.trans hev, fun _ k _ hr => ?_⟩
  rw [(note_fields s' t.cluster t.cluster i _).1] at hr
  exact ⟨h.running _ _ _ hr, fun rv ps hs =>
    (note_sealed s' t.cluster t.cluster i _ k rv ps).mpr (h.sealed _ _ rv ps hs)⟩

theorem gentle_step {ch : Choice} {r : o.Res} (ho : o.gentle = true) (h : s.Ok F)
    (hx : exec F i ch o t s = some (r, t', s')) :
    (Moves F i t s s' ∧ s'.Ok F) ∧ t' = t ∧ Keeps F i t s s' := by
  obtain ⟨rfl, hown, s₁, hlive, rfl⟩ := exec_cases hx
  obtain ⟨hstep, hentry⟩ := gentle_ok ho h hlive
  exact ⟨hstep.acts.noted hown hentry, rfl, hstep.calm.noted⟩

end Berth.Operator
