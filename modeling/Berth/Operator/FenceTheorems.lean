/-
Berth.Operator.FenceTheorems — a stopped target stays stopped.

A pass that has stopped its target has either written the fence of its
stopping lease into it or found that fence there. A fence that was written
after the lease was stopping means that the target has been touched since,
so no activation that was admitted before can still be committed.

The fence is found and not written if someone has put it there in advance;
then nothing has been touched, and such an activation can.
-/
import Berth.Operator.CleanupTheorems

namespace Berth.Operator

open Berth.Interleave Berth.Lease Berth.Api Berth.Client

variable {ι : Type} {cfg : Server.Config} {F : Fleet ι} {j : ι} {i : Nat}
variable {c : Cluster} {l : BerthLease} {o : Object} {evs : List (Event ClusterSig)}

/-! ## The stop action -/

/-- What `stopTarget` does to a target. -/
def stopAction (t : TargetRef) : LeaseAction :=
  if t.kind = "CronJob" ∧ t.apiVersion = "batch/v1" then { suspend := some true }
  else { scale := some 0 }

theorem stopAction_mutates (t : TargetRef) :
    ((stopAction t).suspend.isNone && (stopAction t).scale.isNone) = false := by
  unfold stopAction
  split <;> rfl

theorem applyTo_uid (o : Object) (a : LeaseAction) (fence : String) :
    (applyTo o a fence).uid = o.uid := by
  unfold applyTo
  cases a.suspend <;> cases a.scale <;> dsimp only <;> split <;> rfl

theorem toString_ne_empty (n : Nat) : toString n ≠ "" := by
  intro h
  have hnil : (String.ofList (Nat.toDigits 10 n)).toList = [] := congrArg String.toList h
  rw [String.toList_ofList] at hnil
  exact Nat.toDigits_ne_nil hnil

/-- After an action with a fence the object has it. -/
theorem applyTo_fence (o : Object) (a : LeaseAction) {fence : String} (h : fence ≠ "") :
    Object.annotation (applyTo o a fence) stopFence = fence := by
  have key : ∀ o' : Object, Object.annotation (if fence ≠ "" ∧ o'.annotation stopFence ≠ fence then
      { o' with metadata :=
        { o'.metadata with annotations := o'.metadata.annotations.insert stopFence fence } }
      else o') stopFence = fence := by
    intro o'
    split
    · simp [Object.annotation, Meta.annotation]
    · next hsame =>
      by_contra hne
      exact hsame ⟨h, hne⟩
  exact key _

/-- A target of a supported kind is inactive after the stop action. -/
theorem applyTo_inactive {t : TargetRef} (fence : String) (hkind : o.kind = t.kind)
    (hsup : t.apiVersion = "batch/v1" ∧ t.kind = "CronJob" ∨ t.apiVersion = "apps/v1" ∧
      (t.kind = "Deployment" ∨ t.kind = "StatefulSet" ∨ t.kind = "ReplicaSet")) :
    inactiveTarget (applyTo o (stopAction t) fence) = true := by
  rcases hsup with ⟨hver, hcron⟩ | ⟨hver, hscale⟩
  · have hact : stopAction t = { suspend := some true } := if_pos ⟨hcron, hver⟩
    rw [hact]
    unfold applyTo
    dsimp only
    split <;> simp [inactiveTarget, suspends, hkind, hcron]
  · have hact : stopAction t = { scale := some 0 } := by
      refine if_neg fun h => ?_
      rw [h.2] at hver
      exact absurd hver (by decide)
    have hno : (o.kind == "CronJob" || o.kind == "Job") = false := by
      rw [hkind]
      rcases hscale with h | h | h <;> rw [h] <;> decide
    rw [hact]
    unfold applyTo
    dsimp only
    split <;> simp [inactiveTarget, suspends, hno]

/-! ## A run of the stop -/

/-- A Get found the object with this UID. -/
def finds (uid : String) : Event ClusterSig → Bool
  | ⟨.getObject _, .ok o⟩ => o.uid == uid
  | ⟨.getObject _, .error _⟩ => false
  | _ => true

/-- Every Get of the run found the object with this UID. -/
def Present (uid : String) (evs : List (Event ClusterSig)) : Prop :=
  ∀ e ∈ evs, finds uid e = true

theorem Present.found {uid : String} {key : ObjectKey} {r : Except ApiErr Object}
    (h : Present uid (⟨.getObject key, r⟩ :: evs)) : ∃ o : Object, r = .ok o ∧ o.uid = uid := by
  have hfirst := h _ List.mem_cons_self
  cases r with
  | error e => cases hfirst
  | ok o => exact ⟨o, rfl, eq_of_beq hfirst⟩

theorem Present.tail {uid : String} {e : Event ClusterSig} (h : Present uid (e :: evs)) :
    Present uid evs := fun e' he' => h e' (List.mem_cons_of_mem _ he')

/-- An action on an object that is there: nothing is to be done, or the
write went through. -/
theorem applyFencedAction_ran {ns uid fence : String} {t : TargetRef} {a : LeaseAction}
    (hmut : (a.suspend.isNone && a.scale.isNone) = false)
    (h : (applyFencedAction ns (some t) (some a) uid fence).Ran evs none)
    (hpres : Present uid evs) :
    ∃ o : Object, o.uid = uid ∧
      (⟨.getObject ⟨t.apiVersion, t.kind, ns, t.name⟩, .ok o⟩ : Event ClusterSig) ∈ evs ∧
      (applyTo o a fence = o ∨ ∃ id : Nat,
        (⟨.submit (applyTo o a fence), id⟩ : Event ClusterSig) ∈ evs ∧
          (⟨.awaitWrite id, .ok ()⟩ : Event ClusterSig) ∈ evs) := by
  obtain ⟨r, evs, rfl, hk⟩ := Prog.Ran.of_perform h
  obtain ⟨o, rfl, ho⟩ := hpres.found
  refine ⟨o, ho, List.mem_cons_self, ?_⟩
  dsimp only at hk
  rw [if_neg fun hne => hne.2 ho, if_neg (by rw [hmut]; exact Bool.false_ne_true)] at hk
  split at hk
  · next hsame => exact .inl hsame
  obtain ⟨id, evs₁, rfl, hk₁⟩ := Prog.Ran.of_perform hk
  obtain ⟨r, evs₂, rfl, hk₂⟩ := Prog.Ran.of_perform hk₁
  cases r with
  | error e => cases hk₂
  | ok _ =>
    exact .inr ⟨id, List.mem_cons_of_mem _ List.mem_cons_self,
      List.mem_cons_of_mem _ (List.mem_cons_of_mem _ List.mem_cons_self)⟩

/-- A stop that returns nil has seen the target stopped and fenced, or has
written that. -/
theorem stopTarget_ran {t : TargetRef} (ht : l.spec.target = some t)
    (h : (stopTarget l).Ran evs none) (hpres : Present l.targetUID evs) :
    ∃ o : Object, o.uid = l.targetUID ∧
      (⟨.getObject (targetKey l t), .ok o⟩ : Event ClusterSig) ∈ evs ∧
      (applyTo o (stopAction t) (toString l.resourceVersion) = o ∨ ∃ id : Nat,
        (⟨.submit (applyTo o (stopAction t) (toString l.resourceVersion)), id⟩ :
          Event ClusterSig) ∈ evs ∧
        (⟨.awaitWrite id, .ok ()⟩ : Event ClusterSig) ∈ evs) := by
  unfold stopTarget at h
  rw [ht] at h
  obtain ⟨r, evs, rfl, hk⟩ := Prog.Ran.of_perform h
  obtain ⟨o, rfl, ho⟩ := hpres.found
  dsimp only at hk
  rw [if_neg fun hne => hne.2 ho, ho] at hk
  obtain ⟨o', huid', hget, hdone⟩ := applyFencedAction_ran (stopAction_mutates t) hk hpres.tail
  refine ⟨o', huid', List.mem_cons_of_mem _ hget, hdone.imp id ?_⟩
  rintro ⟨id, hsub, hans⟩
  exact ⟨id, List.mem_cons_of_mem _ hsub, List.mem_cons_of_mem _ hans⟩

/-- What a thread was told is in the journal. -/
theorem mem_journal {e : Event ClusterSig} (h : e ∈ c.events i) : (i, e) ∈ c.journal := by
  obtain ⟨x, hx, rfl⟩ := List.mem_map.mp h
  obtain ⟨hmem, hi⟩ := List.mem_filter.mp hx
  rw [← eq_of_beq hi]
  exact hmem

/-! ## The target stays stopped -/

variable [DecidableEq ι] {τ : Time} {p : Pool (machine F cfg)} {v : Version}

/-- The stop fence holds. In every run in which no object is stored whose
stop fence names a revision that was not issued yet: once a pass over the
stopping state `v` of a lease has stopped the target, which was there under
the admitted UID, the target is inactive as long as every state of the
lease since `v` is stopping. -/
theorem stop_fence_holds (hhonest : F.honest = true) (h : (fresh F cfg τ).Reaches p)
    (hv : v ∈ (p.shared.clusters j).versions) (huid : v.lease.targetUID ≠ "") (g : Nat)
    (cs : List Condition) (hran : (stopTarget (v.lease.reporting g cs)).Ran evs none)
    (hpres : Present v.lease.targetUID evs)
    (hlog : evs.reverse <:+: (p.shared.clusters j).events i)
    (hstop : StoppingFrom (p.shared.clusters j) v.lease.uid v.lease.resourceVersion) :
    ∀ o ∈ (p.shared.clusters j).objects, o.object.uid = v.lease.targetUID →
      inactiveTarget o.object = true := by
  have hok := site_ok h
  have hled := hok.ledgers j
  have hcluster := hok.clusters j
  have hjournal : ∀ e ∈ evs, (i, e) ∈ (p.shared.clusters j).journal := fun e he =>
    mem_journal (hlog.subset (List.mem_reverse.mpr he))
  -- the target is what the record says
  obtain ⟨w, hw⟩ := workload_of_phase (by
    rw [hstop v hv rfl (Nat.le_refl _)]
    exact (nomatch ·))
  have hwuid : w.targetUID = v.lease.targetUID := by simp [BerthLease.targetUID, hw]
  obtain ⟨_, _, _, _, _, _, haim⟩ :=
    ((hcluster.version v hv).record w hw).aimed (by rw [hwuid]; exact huid)
  obtain ⟨t, ht, hkey⟩ := haim.key
  have hkinds := ObjectKey.mk.inj hkey
  have hsup := haim.kind
  rw [← hkinds.1, ← hkinds.2.1] at hsup
  obtain ⟨o, houid, hget, hdone⟩ := stopTarget_ran (l := v.lease.reporting g cs) ht hran hpres
  obtain ⟨hseen, hokey⟩ := (hled.fences hhonest).seen i _ o (hjournal _ hget)
  have hfence : fenceOf (applyTo o (stopAction t) (toString v.lease.resourceVersion)) =
      some v.lease.resourceVersion := fenceOf_toString (applyTo_fence o _ (toString_ne_empty _))
  have hin := applyTo_inactive (toString v.lease.resourceVersion) (ObjectKey.mk.inj hokey).2.1 hsup
  have huid' : (applyTo o (stopAction t) (toString v.lease.resourceVersion)).uid =
      v.lease.targetUID := (applyTo_uid o _ _).trans houid
  -- what the stop has seen or written is a target with the fence of `v`
  have hgood : FenceOk (p.shared.clusters j)
      (applyTo o (stopAction t) (toString v.lease.resourceVersion)) := by
    rcases hdone with hsame | ⟨id, hsub, hans⟩
    · exact hsame.symm ▸ hseen
    obtain ⟨q, hq, hw, hd⟩ := hled.heard.submitted i _ id (hjournal _ hsub)
    obtain ⟨q', hq', ha⟩ := hled.heard.answered i id (hjournal _ hans)
    cases hq.symm.trans hq'
    exact (hled.fences hhonest).answered id q _ hq hw hd ha (by rw [huid']; exact huid)
  have hhalt := hgood.holds v hv hfence huid'.symm huid hin hstop
  intro q hq hquid
  exact (hhalt q hq (hquid.trans huid'.symm)).2

/-! ## With and without the condition -/

/-- A stretch of what a thread was told. -/
def stretch (c : Cluster) (i a n : Nat) : List (Event ClusterSig) :=
  ((c.events i).reverse.drop a).take n

theorem stretch_logged (c : Cluster) (i a n : Nat) : (stretch c i a n).reverse <:+: c.events i := by
  have hin : stretch c i a n <:+: (c.events i).reverse :=
    (List.take_prefix n _).isInfix.trans (List.drop_suffix a _).isInfix
  rw [← List.reverse_infix, List.reverse_reverse]
  exact hin

/-- One cluster without forged fences. -/
def frank : Fleet Unit := { solo true with honest := true }

/-- The heartbeats fail until the acquisition has expired, and the next
pass stops the target. -/
def fenceRun : Script frank plain :=
  prepare () nightly web 0 0 ++ activate () nightly 2 0 1 0 ++
    [.act (.env (.tick (11 * second))), pass () nightly, .go 4 6, handling () 2, .go 5 2, .go 4 1]

def fencedOff : Pool (machine frank plain) :=
  (fresh frank plain 0).played prompt fenceRun (by decide)

theorem stop_fence_holds_expired :
    (∃ v ∈ (fencedOff.shared.clusters ()).versions, v.lease.phase = .stopping) ∧
      ∀ o ∈ (fencedOff.shared.clusters ()).objects, o.object.uid = "target-1" →
        inactiveTarget o.object = true := by
  have hv : ∃ v ∈ (fencedOff.shared.clusters ()).versions, v.lease.phase = .stopping ∧
      v.lease.targetUID = "target-1" ∧
      (stopTarget (v.lease.reporting 0 [])).feed (stretch (fencedOff.shared.clusters ()) 4 3 4) =
        some none ∧
      ∀ w ∈ (fencedOff.shared.clusters ()).versions, w.lease.uid = v.lease.uid →
        v.lease.resourceVersion ≤ w.lease.resourceVersion → w.lease.phase = .stopping := by
    decide
  obtain ⟨v, hv, hphase, huid, hfeed, hstop⟩ := hv
  have hpres : Present "target-1" (stretch (fencedOff.shared.clusters ()) 4 3 4) := by
    unfold Present
    decide
  refine ⟨⟨v, hv, hphase⟩, fun o ho hou => ?_⟩
  exact stop_fence_holds rfl (Pool.reaches_played _) hv (by rw [huid]; decide) 0 []
    (Prog.ran_of_feed hfeed) (by rw [huid]; exact hpres) (stretch_logged _ _ _ _) hstop o ho
    (hou.trans huid.symm)

/-- The target with the fence of a revision that is still to come. -/
def forged : Object :=
  { web with metadata :=
    { web.metadata with annotations := web.metadata.annotations.insert stopFence "7" } }

/-- The fence is there in advance. The activation is admitted and its
answer lost; by the time it is committed the acquisition has expired and
the stop has found nothing to do. -/
def forgedRun : Script (solo true) plain :=
  prepare () nightly web 0 0 ++
    [happen () (.request (.update forged) "user" false), handling () 1, .go 2 2,
     pass () nightly, .go 3 4] ++ serving 0 0 ++
    [.go 3 7, handling () 2, .go 4 3, .act (.exec 3 (.fail (.new "timeout"))), .go 3 1,
     .act (.env (.tick (11 * second))), pass () nightly, .go 5 5, .go 4 1]

def resurrected : Pool (machine (solo true) plain) :=
  (fresh (solo true) plain 0).played prompt forgedRun (by decide)

/-- A fence in advance lets a delayed activation through: the stop has
returned nil, the lease is stopping, and the target runs. -/
theorem stop_fence_forged :
    (fresh (solo true) plain 0).Reaches resurrected ∧
    ∃ v ∈ (resurrected.shared.clusters ()).versions, v.lease.targetUID = "target-1" ∧
      (∃ evs, (stopTarget (v.lease.reporting 0 [])).Ran evs none ∧ Present "target-1" evs ∧
        evs.reverse <:+: (resurrected.shared.clusters ()).events 5) ∧
      StoppingFrom (resurrected.shared.clusters ()) v.lease.uid v.lease.resourceVersion ∧
      ∃ o ∈ (resurrected.shared.clusters ()).objects, o.object.uid = "target-1" ∧
        inactiveTarget o.object = false := by
  have hv : ∃ v ∈ (resurrected.shared.clusters ()).versions, v.lease.targetUID = "target-1" ∧
      (stopTarget (v.lease.reporting 0 [])).feed (stretch (resurrected.shared.clusters ()) 5 3 2) =
        some none ∧
      (∀ w ∈ (resurrected.shared.clusters ()).versions, w.lease.uid = v.lease.uid →
        v.lease.resourceVersion ≤ w.lease.resourceVersion → w.lease.phase = .stopping) ∧
      ∃ o ∈ (resurrected.shared.clusters ()).objects, o.object.uid = "target-1" ∧
        inactiveTarget o.object = false := by
    decide
  obtain ⟨v, hv, huid, hfeed, hstop, hactive⟩ := hv
  have hpres : Present "target-1" (stretch (resurrected.shared.clusters ()) 5 3 2) := by
    unfold Present
    decide
  exact ⟨Pool.reaches_played _, v, hv, huid,
    ⟨_, Prog.ran_of_feed hfeed, hpres, stretch_logged _ _ _ _⟩, hstop, hactive⟩

end Berth.Operator
