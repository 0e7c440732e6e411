/-
Berth.Acquire.DiskTheorems — the state directory on disk refines the state
directory of `Acquire/Fleet.lean`.

The step that renames a finished file is the write of the coarser model;
a step that fails is a write that failed, whatever it leaves behind. Every
other step is invisible there.

The results: every run here is a run of the coarser model with the same
server, the same answers and the same visible files, so what is proved
about that one holds here; files under published names are finished and
frozen; and a process that has returned left a temporary file behind only
where removing it failed, or where renaming it failed in `writeFileAtomic`.
-/
import Berth.Acquire.DiskSteps

namespace Berth.Acquire

open Berth.Files Berth.Interleave Berth.Lease

variable {ι : Type} {F : Fleet ι} {cfg : Server.Config}

/-! ## What the helpers do with their files -/

theorem uses_process (F : Fleet ι) (c : Start ι) : Uses (F.holder c.pod) (process F c) := by
  rcases c with ⟨pod, n | n⟩
  · exact (uses_hold _ n).bind fun _ => trivial
  · exact (ends_run n rfl).only.bind fun _ => trivial

/-! ## Every effect is implemented well -/

variable [DecidableEq ι]

def diskView (F : Fleet ι) (cfg : Server.Config) (exe : String) : View (onDisk F cfg exe) where
  discipline := diskDiscipline F cfg exe
  rel := Abstracts
  idle := Idle
  used := fun c => HelperOp.Used (F.holder c.pod)
  adm := fun _ => trivial
  idle_interf := Idle.around

section Commits

variable {exe : String} {i : Nat} {c : Start ι} {s : Disks ι cfg} {tmp : Temp} {f : File}

/-- One step of a program that has not taken effect. -/
theorem commits_op {o : HelperOp} {o' : DiskOp} {k : o'.Res → Prog DiskSig o.Res}
    (h : ∀ {s₁ m ch r s₂}, Around i c s s₁ → s₁.Ok F exe → Abstracts s₁ m →
      execDisk F exe i ch o' c s₁ = some (r, s₂) → Does F exe i c s₁ s₂ ∧
        ((Abstracts s₂ m ∧ (diskView F cfg exe).Commits i o (k r) c s₂) ∨
          ∃ ch' a m', execLive F ch' o c m = some (a, m') ∧ Abstracts s₂ m' ∧
            (diskView F cfg exe).Settles i a (k r) c s₂)) :
    (diskView F cfg exe).Commits i o (.op o' k) c s := by
  intro s₁ m ha hs habs ch r c' s₂ hex
  obtain ⟨rfl, halive, hexec⟩ := execOnDisk_cases hex
  obtain ⟨hdoes, ⟨habs', hrest⟩ | ⟨ch', a, m', hlive, habs', hrest⟩⟩ := h ha hs habs hexec
  · exact ⟨hdoes, .inl ⟨rfl, habs', hrest⟩⟩
  refine ⟨hdoes, .inr ⟨ch', a, m', ?_, habs', hrest⟩⟩
  change exec F i ch' o c' m = some (a, c', m')
  have halive' : alive c' i m = true := habs.alive.trans halive
  unfold exec
  rw [if_pos halive', hlive]
  rfl

/-- One step of a program that has taken effect. -/
theorem settles_op {α : Type} {a : α} {o' : DiskOp} {k : o'.Res → Prog DiskSig α}
    (h : ∀ {s₁ m ch r s₂}, Around i c s s₁ → s₁.Ok F exe →
      execDisk F exe i ch o' c s₁ = some (r, s₂) → Does F exe i c s₁ s₂ ∧
        (Abstracts s₁ m → Abstracts s₂ m) ∧ (diskView F cfg exe).Settles i a (k r) c s₂) :
    (diskView F cfg exe).Settles i a (.op o' k) c s := by
  intro s₁ m ha hs habs ch r c' s₂ hex
  obtain ⟨rfl, halive, hexec⟩ := execOnDisk_cases hex
  obtain ⟨hdoes, habs', hrest⟩ := h ha hs hexec
  exact ⟨hdoes, rfl, habs' habs, hrest⟩

theorem settles_ret {α : Type} {a : α} (h : Idle i c s) :
    (diskView F cfg exe).Settles i a (.ret a) c s := ⟨rfl, h⟩

/-- The ends of a failed write take effect as that failure did. -/
theorem settles_discard {α : Type} {a : α} {e : Err} {k : Except Err Unit → Prog DiskSig α}
    (hk : k (.error e) = .ret a) (h : Holding i c tmp f s) :
    (diskView F cfg exe).Settles i a ((discard tmp e).bind k) c s := by
  refine settles_op fun ha hs hex => ?_
  obtain ⟨hdoes, habs, hidle⟩ := discard_step hs (h.around ha) hex
  refine ⟨hdoes, habs, ?_⟩
  change (diskView F cfg exe).Settles i a (k (.error e)) c _
  rw [hk]
  exact settles_ret hidle

theorem settles_closeAndDiscard {α : Type} {a : α} {e : Err} {k : Except Err Unit → Prog DiskSig α}
    (hk : k (.error e) = .ret a) (h : Holding i c tmp f s) :
    (diskView F cfg exe).Settles i a ((closeAndDiscard tmp e).bind k) c s := by
  refine settles_op fun ha hs hex => ?_
  obtain rfl := execDisk_close hex
  exact ⟨does_refl hs, id, settles_discard hk (h.around ha)⟩

section Complete

variable {o : HelperOp} {fail : Err → o.Res}

/-- A step that fails is an effect that failed. -/
theorem commits_fail {s₂ : Disks ι cfg} {m : Site ι cfg} {p : Prog DiskSig o.Res} (e : Err)
    (hfail : ∀ (e : Err) (m : Site ι cfg), ∃ ch, execLive F ch o c m = some (fail e, m))
    (habs : Abstracts s₂ m) (h : (diskView F cfg exe).Settles i (fail e) p c s₂) :
    ∃ ch' a m', execLive F ch' o c m = some (a, m') ∧ Abstracts s₂ m' ∧
      (diskView F cfg exe).Settles i a p c s₂ := by
  obtain ⟨ch, hch⟩ := hfail e m
  exact ⟨ch, fail e, m, hch, habs, h⟩

/-- A first step that leaves the disk alone: it fails, and so does the
effect, or the rest follows. -/
theorem commits_try {o' : DiskOp} {k : o'.Res → Prog DiskSig o.Res}
    (hfail : ∀ (e : Err) (m : Site ι cfg), ∃ ch, execLive F ch o c m = some (fail e, m))
    (htry : ∀ {ch r} {s₁ s₂ : Disks ι cfg}, execDisk F exe i ch o' c s₁ = some (r, s₂) →
      s₂ = s₁ ∧ ((∃ e, k r = .ret (fail e)) ∨
        (Idle i c s₁ → (diskView F cfg exe).Commits i o (k r) c s₁)))
    (h : Idle i c s) : (diskView F cfg exe).Commits i o (.op o' k) c s := by
  refine commits_op fun {s₁ m ch r s₂} ha hs habs hex => ?_
  obtain ⟨rfl, ⟨e, he⟩ | hrest⟩ := htry hex
  · rw [he]
    exact ⟨does_refl hs, .inr (commits_fail e hfail habs (settles_ret (h.around ha)))⟩
  · exact ⟨does_refl hs, .inl ⟨habs, hrest (h.around ha)⟩⟩

/-- Filling, chmod and close: either all went well and the file is as it
should be, or the effect failed. -/
theorem commits_complete {fill : DiskOp} {filled : fill.Res → Except Err Unit} {mode : Nat}
    {say : String → Err → Err} {k : Except Err Unit → Prog DiskSig o.Res} (data : String)
    (hfill : ∀ {ch r} {s s' : Disks ι cfg}, execDisk F exe i ch fill c s = some (r, s') →
      ∃ part, s' = appendTo s c.pod tmp.file part data ∧ (filled r = .ok () → part = data))
    (hfail : ∀ (e : Err) (m : Site ι cfg), ∃ ch, execLive F ch o c m = some (fail e, m))
    (hk : ∀ e, k (.error e) = .ret (fail e))
    (hok : ∀ {s f'}, Holding i c tmp f' s → f'.content = f.content ++ data →
      f'.due = f.due ++ data → f'.mode = mode →
      (diskView F cfg exe).Commits i o (k (.ok ())) c s)
    (h : Holding i c tmp f s) :
    (diskView F cfg exe).Commits i o ((complete tmp fill filled mode say).bind k) c s := by
  refine commits_op fun {s₁ m ch r s₂} ha hs habs hex => ?_
  obtain ⟨part, rfl, hpart⟩ := hfill hex
  obtain ⟨hdoes, habs', hhold⟩ := modify_step (m := m) hs (h.around ha) (g := fun f =>
    { f with content := f.content ++ part, mtime := s₁.site.clock, due := f.due ++ data })
    h.maker (Int.le_refl _)
  refine ⟨hdoes, ?_⟩
  cases hr : filled r with
  | error e =>
    refine .inr (commits_fail (say "copy" e) hfail (habs' habs) ?_)
    simp only [Prog.ret_bind, hr]
    exact settles_closeAndDiscard (hk _) hhold
  | ok u =>
    refine .inl ⟨habs' habs, ?_⟩
    simp only [Prog.ret_bind, hr]
    cases hpart hr
    refine commits_op fun {s₃ m ch r s₄} ha hs habs hex => ?_
    rcases execDisk_chmod hex with ⟨rfl, rfl⟩ | ⟨e, rfl, rfl⟩
    · obtain ⟨hdoes, habs', hhold'⟩ := modify_step (m := m) hs (hhold.around ha) (g := fun f =>
        { f with mode := mode }) hhold.maker (hhold.around ha).mtime
      refine ⟨hdoes, .inl ⟨habs' habs, ?_⟩⟩
      refine commits_op fun {s₅ m ch r s₆} ha hs habs hex => ?_
      obtain rfl := execDisk_close hex
      refine ⟨does_refl hs, ?_⟩
      cases r with
      | error e =>
        refine .inr (commits_fail (say "close" e) hfail habs ?_)
        exact settles_discard (hk _) (hhold'.around ha)
      | ok u => exact .inl ⟨habs, hok (hhold'.around ha) rfl rfl rfl⟩
    · refine ⟨does_refl hs, .inr (commits_fail (say "chmod" e) hfail habs ?_)⟩
      exact settles_closeAndDiscard (hk _) (hhold.around ha)

end Complete

/-- Names that start with a dot are temporary. -/
theorem not_published_dot (s : String) : ¬ Published ("." ++ s) := by
  intro h
  simp only [Published, checkName, List.mem_cons, List.not_mem_nil, or_false] at h
  rcases h with h | h | h | h <;>
    · have := congrArg String.toList h
      simp at this

theorem commits_writeFileAtomic {g : StateFile} {data : String}
    (htext : g.Says (F.holder c.pod) data) (h : Idle i c s) :
    (diskView F cfg exe).Commits i (.writeFileAtomic g data)
      (writeFileAtomicOnDisk g data) c s := by
  have hfail : ∀ (e : Err) (m : Site ι cfg), ∃ ch,
      execLive F ch (.writeFileAtomic g data) c m = some (.error e, m) := fun e m => ⟨.fail e, rfl⟩
  refine commits_op fun {s₁ m ch r s₂} ha hs habs hex => ?_
  rcases execDisk_createTemp hex with ⟨x, hfree, rfl, rfl⟩ | ⟨e, rfl, rfl⟩
  · have hname : ¬ Published (".tmp-" ++ x) := by
      rw [show (".tmp-" : String) = "." ++ "tmp-" from rfl, String.append_assoc]
      exact not_published_dot _
    obtain ⟨hdoes, habs', hhold⟩ := create_step (m := m) hs (h.around ha) hfree hname
      (f := ⟨"", 0o600, s₁.site.clock, some i, ""⟩) rfl (Int.le_refl _)
    refine ⟨hdoes, .inl ⟨habs' habs, ?_⟩⟩
    change (diskView F cfg exe).Commits i _
      ((complete _ (.write _ data) id 0o644 fun _ e => e).bind _) c _
    refine commits_complete data ?_ hfail ?_ ?_ hhold
    · exact fun hex => writeTo_cases hex
    · exact fun _ => rfl
    intro s₃ f' hhold' hcontent hdue hmode
    have hdata : f'.content = data := by simpa using hcontent
    have hfin : Finished exe (F.holder c.pod) g.name f' := by
      rw [Finished, if_neg (name_ne_check g), hdata]
      exact ⟨by simpa using hdue.symm, hmode, g, rfl, htext⟩
    -- the rename is the write
    refine commits_op fun {s₄ m ch r s₅} ha hs habs hex => ?_
    have hhold₄ := hhold'.around ha
    rcases execDisk_rename hhold₄.name hex with ⟨rfl, rfl⟩ | ⟨e, rfl, rfl⟩
    · obtain ⟨hdoes, hidle⟩ := publish_step hs hhold₄ (published_name g) hfin
      refine ⟨hdoes, .inr ⟨.ok, .ok (), _, rfl, ?_, settles_ret hidle⟩⟩
      refine habs.setDir (g := fun v => v.write m.clock data g) fun v hv => ?_
      exact hv.rename hhold₄.name hhold₄.file hhold₄.hidden hdata (habs.clock ▸ hhold₄.mtime)
    · refine ⟨does_fault hs _, .inr (commits_fail e hfail (habs.fault _) (settles_ret ?_))⟩
      exact (hhold₄.fault _).idle (.inr ⟨g.name, name_ne_check g, List.mem_cons_self ..⟩)
  · exact ⟨does_refl hs, .inr (commits_fail e hfail habs (settles_ret (h.around ha)))⟩

theorem commits_copyFile {src dir : String} (h : Idle i c s) :
    (diskView F cfg exe).Commits i .installCheckBinary (copyFile src dir) c s := by
  have hfail : ∀ (e : Err) (m : Site ι cfg), ∃ ch,
      execLive F ch .installCheckBinary c m = some (.error e, m) := fun e m => ⟨.fail e, rfl⟩
  refine commits_try hfail (fun {ch r s₁ s₂} hex => ?_) h
  cases ch with
  | fail e =>
    cases hex
    exact ⟨rfl, .inl ⟨_, rfl⟩⟩
  | ok =>
    cases hex
    refine ⟨rfl, .inr fun h => ?_⟩
    refine commits_op fun {s₃ m ch r s₄} ha hs habs hex => ?_
    rcases execDisk_createTemp hex with ⟨x, hfree, rfl, rfl⟩ | ⟨e, rfl, rfl⟩
    · have hname : ¬ Published (".check-" ++ x) := by
        rw [show (".check-" : String) = "." ++ "check-" from rfl, String.append_assoc]
        exact not_published_dot _
      obtain ⟨hdoes, habs', hhold⟩ := create_step (m := m) hs (h.around ha) hfree hname
        (f := ⟨"", 0o600, s₃.site.clock, some i, ""⟩) rfl (Int.le_refl _)
      refine ⟨hdoes, .inl ⟨habs' habs, ?_⟩⟩
      change (diskView F cfg exe).Commits i _ ((complete _ (.copy _) id 0o755 .wrap).bind _) c _
      refine commits_complete exe ?_ hfail ?_ ?_ hhold
      · exact fun hex => writeTo_cases hex
      · exact fun _ => rfl
      intro s₅ f' hhold' hcontent hdue hmode
      have hfin : Finished exe (F.holder c.pod) checkName f' := by
        simp only [Finished, if_true]
        exact ⟨hcontent.trans hdue.symm, by simpa using hcontent, hmode⟩
      refine commits_op fun {s₆ m ch r s₇} ha hs habs hex => ?_
      have hhold₆ := hhold'.around ha
      rcases execDisk_rename hhold₆.name hex with ⟨rfl, rfl⟩ | ⟨e, rfl, rfl⟩
      · have hpub : Published checkName := by decide
        obtain ⟨hdoes, hidle⟩ := publish_step hs hhold₆ hpub hfin
        refine ⟨hdoes, .inr ⟨.ok, .ok (), m, rfl, ?_, settles_ret hidle⟩⟩
        refine habs.setDisk (kept_rename hhold₆.name hhold₆.file hhold₆.maker hpub) fun g => ?_
        exact Directory.names_rename_of_ne _ hhold₆.name
          (fun heq => hhold₆.hidden (heq ▸ published_name g)) (name_ne_check g)
      · -- unlike `writeFileAtomic`, the temporary file is removed
        refine ⟨does_fault hs _, .inr (commits_fail (.wrap "rename" e) hfail (habs.fault _) ?_)⟩
        change (diskView F cfg exe).Settles i _ (discard _ _) c _
        rw [← Prog.bind_ret (discard _ _)]
        exact settles_discard rfl (hhold₆.fault _)
    · exact ⟨does_refl hs, .inr (commits_fail _ hfail habs (settles_ret (h.around ha)))⟩
  | _ => cases hex

theorem commits_installCheckBinary {dir : String} (h : Idle i c s) :
    (diskView F cfg exe).Commits i .installCheckBinary (installCheckBinaryOnDisk dir) c s := by
  have hfail : ∀ (e : Err) (m : Site ι cfg), ∃ ch,
      execLive F ch .installCheckBinary c m = some (.error e, m) := fun e m => ⟨.fail e, rfl⟩
  refine commits_try hfail (fun {ch r s₁ s₂} hex => ?_) h
  cases ch with
  | fail e =>
    cases hex
    exact ⟨rfl, .inl ⟨_, rfl⟩⟩
  | ok =>
    cases hex
    refine ⟨rfl, .inr fun h => commits_try hfail (fun {ch r s₁ s₂} hex => ?_) h⟩
    cases ch with
    | helper ch =>
      cases ch with
      | fail e =>
        cases hex
        exact ⟨rfl, .inl ⟨_, rfl⟩⟩
      | ok =>
        cases hex
        exact ⟨rfl, .inr commits_copyFile⟩
      | _ => cases hex
    | _ => cases hex
  | _ => cases hex

theorem commits_readFile {g : StateFile} (hg : g ≠ .healthy) (h : Idle i c s) :
    (diskView F cfg exe).Commits i (.readFile g) (onDiskEffect (.readFile g.name)) c s := by
  refine commits_op fun {s₁ m ch r s₂} ha hs habs hex => ?_
  have hidle := h.around ha
  cases ch with
  | fail e =>
    cases hex
    exact ⟨does_refl hs, .inr ⟨.fail e, .error e, m, rfl, habs, settles_ret hidle⟩⟩
  | ok =>
    have hread : (m.pods c.pod).dir.read g =
        ((s₁.disks c.pod).file? g.name).map File.content := by
      obtain ⟨dirs, rfl, hdirs⟩ := habs
      exact (hdirs c.pod).read hg
    simp only [execDisk] at hex
    split at hex
    · next f hf =>
      cases hex
      refine ⟨does_refl hs, .inr ⟨.ok, .ok f.content, m, ?_, habs, settles_ret hidle⟩⟩
      simp [execLive, hread, hf]
    · next hf =>
      cases hex
      refine ⟨does_refl hs, .inr ⟨.ok, _, m, ?_, habs, settles_ret hidle⟩⟩
      simp [execLive, hread, hf]
  | _ => cases hex

theorem commits_remove (h : Idle i c s) :
    (diskView F cfg exe).Commits i (.remove .healthy)
      (onDiskEffect (.remove StateFile.healthy.name)) c s := by
  refine commits_op fun {s₁ m ch r s₂} ha hs habs hex => ?_
  have hidle := h.around ha
  have hsome : ((m.pods c.pod).dir.read .healthy).isSome =
      ((s₁.disks c.pod).names StateFile.healthy.name).isSome := by
    obtain ⟨dirs, rfl, hdirs⟩ := habs
    rw [← (hdirs c.pod).healthy_isSome]
    simp [StateDir.read, Site.withDirs]
  rcases execDisk_remove hex with ⟨rfl, hn, rfl⟩ | ⟨rfl, hn, rfl⟩ | ⟨e, rfl, rfl⟩
  · have hk : Kept Published i (s₁.disks c.pod) ((s₁.disks c.pod).unlink StateFile.healthy.name) :=
      kept_unlink (.inl (published_name .healthy))
    rw [hn] at hsome
    obtain ⟨data, hdata⟩ := Option.isSome_iff_exists.mp hsome
    refine ⟨does_setDisk hs hk (whole_unlink (hs.whole _)),
      .inr ⟨.ok, .ok (), m.setDir c.pod ((m.pods c.pod).dir.erase .healthy), ?_,
        habs.setDir fun v hv => hv.unlink_healthy, settles_ret ?_⟩⟩
    · simp [execLive, hdata]
    · intro j name
      by_cases hj : j = c.pod
      · subst hj
        intro n f hpub hn hf hmaker
        rw [disks_setDisk_self] at hn hf
        have hne : name ≠ StateFile.healthy.name := fun heq => hpub (heq ▸ published_name .healthy)
        rw [Directory.names_unlink_of_ne _ hne] at hn
        exact hidle _ name n f hpub hn hf hmaker
      · exact (hidle j name).setDisk_of_ne hj
  · rw [hn] at hsome
    have hnone : (m.pods c.pod).dir.read .healthy = none := by simpa using hsome
    refine ⟨does_refl hs, .inr ⟨.ok, .error .absent, m, ?_, habs, settles_ret hidle⟩⟩
    simp [execLive, hnone]
  · refine ⟨does_fault hs _,
      .inr ⟨.fail e, .error (.other e), m, rfl, habs.fault _, settles_ret ?_⟩⟩
    exact hidle.around ⟨fun _ => .refl _ _, Int.le_refl _, List.subset_cons_self _ _⟩

theorem commits_helper {o : HelperOp} (ho : o.onDisk = false) (h : Idle i c s) :
    (diskView F cfg exe).Commits i o (onDiskEffect (.helper o ho)) c s := by
  refine commits_op fun {s₁ m ch r s₂} ha hs habs hex => ?_
  cases ch with
  | helper ch =>
    obtain ⟨⟨r', site⟩, hlive, heq⟩ := Option.map_eq_some_iff.mp hex
    cases heq
    obtain ⟨hs', hclock⟩ := hs.serve (execLive_server hlive)
    obtain ⟨dirs, rfl, hdirs⟩ := habs
    refine ⟨⟨hs', fun _ => .refl _ _, hclock, List.Subset.refl _⟩,
      .inr ⟨ch, r', site.withDirs dirs, execLive_withDirs ho hlive, ⟨dirs, rfl, hdirs⟩, ?_⟩⟩
    exact settles_ret ((h.around ha).around (around_site (i := i) (c := c) hclock))
  | _ => cases hex

end Commits

/-- The disk implements the directory. -/
def diskSimulation (F : Fleet ι) (cfg : Server.Config) (exe : String) :
    Simulation (onDisk F cfg exe) where
  toView := diskView F cfg exe
  unborn_idle := fun {i c l s s'} _ hu hst => by
    obtain ⟨site, _, rfl, _⟩ := enterOnDisk_cases hst
    exact fun j name n f _ _ hf hmaker => absurd hmaker (hu j n f hf)
  prog_used := fun {i c l s s'} hst => by
    obtain ⟨site, hent, -⟩ := enterOnDisk_cases hst
    obtain ⟨rfl, -⟩ := enter_cases hent
    exact uses_process F l
  used_exec := fun hex o' ho' => by
    obtain ⟨rfl, -⟩ := execOnDisk_cases hex
    exact ho'
  commits := fun {i} c o {l s} ho hidle => by
    cases o with
    | writeFileAtomic g data => exact commits_writeFileAtomic ho hidle
    | installCheckBinary => exact commits_installCheckBinary hidle
    | readFile g => exact commits_readFile ho hidle
    | remove g =>
      cases ho
      exact commits_remove hidle
    | _ => exact commits_helper rfl hidle
  start_rel := fun {i c l s s' m} habs hst => by
    obtain ⟨site, hent, rfl, _⟩ := enterOnDisk_cases hst
    obtain ⟨dirs, rfl, hdirs⟩ := habs
    exact ⟨site.withDirs dirs, enter_withDirs hent, dirs, rfl, hdirs⟩
  env_rel := fun {e s s' m} habs he => by
    obtain ⟨p, henv, hdisk, rfl, _⟩ := envOnDisk_cases he
    obtain ⟨dirs, rfl, hdirs⟩ := habs
    refine .inr ⟨e, { s.site.withDirs dirs with server := p }, ?_, dirs, rfl, hdirs⟩
    exact envStep_withDirs hdisk henv

/-! ## Runs -/

/-- What the coarser model starts with. -/
def stateDirOf (d : Directory) : StateDir where
  holder := (d.file? StateFile.holder.name).map File.content
  token := (d.file? StateFile.token.name).map File.content
  healthy := (d.file? StateFile.healthy.name).map File.mtime

theorem shows_stateDirOf (d : Directory) : Shows d (stateDirOf d) := by
  refine ⟨rfl, rfl, ?_⟩
  unfold stateDirOf
  cases d.file? StateFile.healthy.name with
  | none => exact .none
  | some f => exact .some (Int.le_refl _)

/-- No process has made a file yet. -/
def Untried (disks : ι → Directory) : Prop := ∀ j, ∀ f ∈ (disks j).files, f.maker = none

section Runs

variable {exe : String} {t₀ : Time} {disks : ι → Directory}
  {p q : Pool (onDisk F cfg exe).machine}

theorem disks_matches (hnew : Untried disks) (h : (freshOnDisk F cfg exe t₀ disks).Reaches p) :
    ∃ q, (fresh F cfg t₀ fun j => stateDirOf (disks j)).Reaches q ∧
      Matches (diskView F cfg exe) p q := by
  have hmaker : ∀ (j : ι) (n : Nat) (f : File), (disks j).files[n]? = some f → f.maker = none :=
    fun j n f hf => hnew j f (List.mem_of_getElem? hf)
  have hok : Disks.Ok F exe (Disks.new cfg t₀ disks) :=
    ⟨⟨t₀, .refl⟩, fun j name n f _ _ hf => .inl (hmaker j n f hf)⟩
  have habs : Abstracts (Disks.new cfg t₀ disks)
      (Site.new cfg t₀ fun j => stateDirOf (disks j)) :=
    ⟨_, rfl, fun j => shows_stateDirOf _⟩
  refine (diskSimulation F cfg exe).reaches hok (fun i j n f hf hi => ?_) habs h
  rw [hmaker j n f hf] at hi
  cases hi

/-- The disk refines the directory: every run is matched by one of the
coarser model, in which a write of a state file is one step, with the same
server, owners, beliefs and visible files, and the same answers. -/
theorem disk_refines (hnew : Untried disks) (h : (freshOnDisk F cfg exe t₀ disks).Reaches p) :
    ∃ q, (fresh F cfg t₀ fun j => stateDirOf (disks j)).Reaches q ∧
      q.shared.server = p.shared.site.server ∧
      (∀ j, (q.shared.pods j).owner = (p.shared.site.pods j).owner ∧
        (q.shared.pods j).rt = (p.shared.site.pods j).rt ∧
        (q.shared.pods j).releasing = (p.shared.site.pods j).releasing ∧
        Shows (p.shared.disks j) (q.shared.pods j).dir) ∧
      q.threads.length = p.threads.length ∧
      ∀ (i : Nat) (t : Thread (onDisk F cfg exe).machine), p.threads[i]? = some t →
        ∃ u : Thread (machine F cfg), q.threads[i]? = some u ∧ u.call = t.call ∧
          ∀ a, t.prog.result? = some a → u.prog.result? = some a := by
  obtain ⟨q, hq, hmatch⟩ := disks_matches hnew h
  obtain ⟨dirs, hsite, hdirs⟩ := hmatch.rel
  refine ⟨q, hq, by rw [hsite]; rfl, fun j => ?_, hmatch.length, fun i t ht => ?_⟩
  · rw [hsite]
    exact ⟨rfl, rfl, rfl, hdirs j⟩
  · obtain ⟨u, hu, hcall, _, honly, hcorr⟩ :=
      Matches.thread (Z := diskSimulation F cfg exe) hmatch ht
    refine ⟨u, hu, hcall, fun a ha => ?_⟩
    rw [Prog.eq_ret_of_result? ha] at hcorr
    rw [(Corresponds.of_ret (Z := diskSimulation F cfg exe) hcorr honly).1]
    rfl

/-- So the sidecars exclude each other also when every file operation is a
step of its own and may fail. -/
theorem sidecars_exclude_on_disk (hclock : cfg.clock = .single) (hnew : Untried disks)
    (h : (freshOnDisk F cfg exe t₀ disks).Reaches p) :
    (∀ i j, (p.shared.site.pods i).rt.isOpen p.shared.site.clock = true →
      (p.shared.site.pods j).rt.isOpen p.shared.site.clock = true →
      (p.shared.site.pods i).releasing = false → (p.shared.site.pods j).releasing = false →
      i = j) ∧
    (∀ j, (p.shared.site.pods j).rt.isOpen p.shared.site.clock = true →
      (p.shared.site.pods j).releasing = false →
      ∃ r, p.shared.site.server.shared.store.lookup F.key = some r ∧
        HeldBy (F.holder j) (p.shared.site.pods j).rt.token (some r) ∧
        (p.shared.site.pods j).rt.expiresAt ≤ r.expiresAt) := by
  obtain ⟨q, hq, hmatch⟩ := disks_matches hnew h
  have hs := fleet_ok hclock hq
  obtain ⟨dirs, hsite, _⟩ := hmatch.rel
  rw [hsite] at hs
  refine ⟨fun i j hi hj hri hrj => open_unique hs hclock hi hj hri hrj, fun j hj hrel => ?_⟩
  have hreplay := hs.world.replay (k := F.key)
  obtain ⟨r, hr, hrest⟩ := open_stored hs hclock hj hrel
  exact ⟨r, by rw [← hr]; exact hreplay, hrest⟩

/-- Whatever stands under a published name was there before the run or is
complete, with nothing missing of what was to be written to it: the Pod's
holder, the text of a token, the marker or the whole executable. And it
stays as it is for good: whoever opened it reads all of it, also after it
was replaced. -/
theorem published_files_whole (hnew : Untried disks)
    (h : (freshOnDisk F cfg exe t₀ disks).Reaches p) (hq : p.Reaches q) {j : ι} {name : String}
    {n : Nat} {f : File} (hname : Published name) (hn : (p.shared.disks j).names name = some n)
    (hf : (p.shared.disks j).files[n]? = some f) :
    (f.maker = none ∨ Finished exe (F.holder j) name f) ∧ (q.shared.disks j).files[n]? = some f := by
  obtain ⟨_, _, hmatch⟩ := disks_matches hnew h
  refine ⟨hmatch.inv.whole j hname hn hf, ?_⟩
  have hfrozen : ∀ j, Frozen Published (p.shared.disks j) (q.shared.disks j) :=
    (diskSimulation F cfg exe).reaches_rel
      (R := fun s s' => ∀ j, Frozen Published (s.disks j) (s'.disks j))
      (fun _ _ => .refl _) (fun h h' j => (h j).trans (h' j)) (fun hg j => (hg.disks j).frozen)
      (fun _ he j => by
        obtain ⟨p, _, _, rfl, _⟩ := envOnDisk_cases he
        exact .refl _)
      (fun _ hst j => by
        obtain ⟨site, _, rfl, _⟩ := enterOnDisk_cases hst
        exact .refl _) hmatch hq
  exact (hfrozen j n f hf fun name' hn' => Directory.injective _ hn hn' ▸ hname).1

/-- A process that has returned left a temporary file behind only where the
file could not be removed, or where `writeFileAtomic` could not rename it.
Installing the check binary leaves one only in the first case. -/
theorem leftovers_from_faults (hnew : Untried disks)
    (h : (freshOnDisk F cfg exe t₀ disks).Reaches p) {i n : Nat}
    {t : Thread (onDisk F cfg exe).machine} {a : Exit} {j : ι} {name : String} {f : File}
    (ht : p.threads[i]? = some t) (ha : t.prog.result? = some a) (hname : ¬ Published name)
    (hn : (p.shared.disks j).names name = some n) (hf : (p.shared.disks j).files[n]? = some f)
    (hmaker : f.maker = some i) :
    .remove j name ∈ p.shared.faults ∨
      ∃ dst, dst ≠ checkName ∧ .rename j name dst ∈ p.shared.faults := by
  obtain ⟨_, _, hmatch⟩ := disks_matches hnew h
  obtain ⟨_, _, _, _, hidle⟩ := Matches.returned (Z := diskSimulation F cfg exe) hmatch ht ha
  exact hidle j name n f hname hn hf hmaker

end Runs

/-! ## Sample runs -/

omit [DecidableEq ι] in
theorem untried_empty : Untried fun _ : ι => Directory.empty := by
  intro j f hf
  cases hf

/-- The two Pods `a` and `b` on disk. -/
abbrev duoOnDisk : Machine DiskSig := (onDisk duo ⟨.single, none, false⟩ "berth").machine

abbrev duoStart : Pool duoOnDisk :=
  freshOnDisk duo ⟨.single, none, false⟩ "berth" 0 fun _ => .empty

/-- A file is written, up to its rename. -/
def writeRun (x : String) : List (Action duoOnDisk) :=
  [.exec 0 (.suffix x), .exec 0 .ok, .exec 0 .ok, .exec 0 .ok]

/-- A file gets its name; where it is more than a file, that is done. -/
def renamed : List (Action duoOnDisk) := [.exec 0 .ok]

def renamedAndDone : List (Action duoOnDisk) := [.exec 0 .ok, .exec 0 (.helper .ok)]

/-- The init container of Pod `a` acquires the lease and begins to write. -/
def heldRun : List (Action duoOnDisk) :=
  [.spawn ⟨false, .init 1⟩, .exec 0 (.helper .ok), .env (.serve 0 .answer),
   .env (.serve 0 (.clock 0)), .env (.serve 0 .answer), .exec 0 (.helper .ok),
   .exec 0 (.helper .ok)] ++ writeRun "1"

/-- The holder is written. -/
def holderWritten : Pool duoOnDisk := duoStart.after (heldRun ++ [.exec 0 .ok]) (by decide)

/-- The marker gets its name, and the check binary is opened. -/
def markedAndOpened : List (Action duoOnDisk) :=
  [.exec 0 .ok, .exec 0 .ok, .exec 0 (.helper .ok), .exec 0 .ok]

/-- So are the other files. -/
def handedOff : Pool duoOnDisk :=
  holderWritten.after ([writeRun "2", renamedAndDone, writeRun "3", markedAndOpened, writeRun "4",
    renamed].flatten) (by decide)

/-- The holder could not be renamed. -/
def unrenamed : Pool duoOnDisk :=
  duoStart.after (heldRun ++ [.exec 0 (.fail (.new "rename"))]) (by decide)

/-- The sidecar of Pod `a` starts, finds nothing and begins its first turn. -/
def sidecarStarted : List (Action duoOnDisk) :=
  [.spawn ⟨false, .sidecar 3⟩, .exec 0 (.helper .ok), .exec 0 (.helper .ok), .exec 0 .ok,
   .exec 0 .ok, .exec 0 .ok, .exec 0 (.helper (.event .tick)), .exec 0 .ok]

/-- It acquires the lease. -/
def sidecarAcquired : List (Action duoOnDisk) :=
  [.exec 0 (.helper .ok), .exec 0 (.helper .ok), .exec 0 (.helper .ok), .env (.serve 0 .answer),
   .env (.serve 0 (.clock 0)), .env (.serve 0 .answer), .exec 0 (.helper .ok),
   .exec 0 (.helper (.flag false)), .exec 0 (.helper .ok), .exec 0 (.helper .ok),
   .exec 0 (.helper .ok), .exec 0 (.helper .ok), .exec 0 (.helper .ok)]

/-- The sidecar acquires the lease, writes its files and opens. -/
def sidecarOpened : List (Action duoOnDisk) :=
  [sidecarStarted, sidecarAcquired, writeRun "1", renamed, writeRun "2", renamedAndDone,
   writeRun "3", renamedAndDone, writeRun "4", renamed].flatten

def openedOnDisk : Pool duoOnDisk := duoStart.after sidecarOpened (by decide)

theorem reaches_handedOff : duoStart.Reaches handedOff :=
  (Pool.reaches_after _).trans (Pool.reaches_after _)

theorem disk_refines_handedOff :
    ∃ q, (fresh duo ⟨.single, none, false⟩ 0 fun _ => stateDirOf .empty).Reaches q ∧
      q.shared.server = handedOff.shared.site.server ∧
      (q.shared.pods false).dir.token = some "1" := by
  obtain ⟨q, hq, hserver, hpods, _⟩ := disk_refines untried_empty reaches_handedOff
  refine ⟨q, hq, hserver, ?_⟩
  rw [(hpods false).2.2.2.token]
  decide

theorem sidecars_exclude_openedOnDisk :
    (openedOnDisk.shared.site.pods false).rt.isOpen openedOnDisk.shared.site.clock = true ∧
    ∃ r, openedOnDisk.shared.site.server.shared.store.lookup duo.key = some r ∧
      HeldBy (duo.holder false) (openedOnDisk.shared.site.pods false).rt.token (some r) ∧
      (openedOnDisk.shared.site.pods false).rt.expiresAt ≤ r.expiresAt := by
  have hopen : (openedOnDisk.shared.site.pods false).rt.isOpen openedOnDisk.shared.site.clock =
      true := by decide
  exact ⟨hopen, (sidecars_exclude_on_disk rfl untried_empty (Pool.reaches_after _)).2 false hopen
    (by decide)⟩

theorem published_holder_whole :
    (holderWritten.shared.disks false).names "holder" = some 0 ∧
      Finished "berth" "a" "holder" ⟨"a", 0o644, 0, some 0, "a"⟩ ∧
      (handedOff.shared.disks false).files[0]? = some ⟨"a", 0o644, 0, some 0, "a"⟩ := by
  have hname : (holderWritten.shared.disks false).names "holder" = some 0 := by decide
  have hfile : (holderWritten.shared.disks false).files[0]? = some ⟨"a", 0o644, 0, some 0, "a"⟩ := by
    decide
  obtain ⟨hmade | hfin, hlater⟩ := published_files_whole untried_empty (Pool.reaches_after _)
    (Pool.reaches_after _) (by decide) hname hfile
  · cases hmade
  · exact ⟨hname, hfin, hlater⟩

/-- `writeFileAtomic` does leave its temporary file behind. -/
theorem leftover_unrenamed :
    (unrenamed.shared.disks false).file? ".tmp-1" = some ⟨"a", 0o644, 0, some 0, "a"⟩ ∧
      (.remove false ".tmp-1" ∈ unrenamed.shared.faults ∨
        ∃ dst, dst ≠ checkName ∧ .rename false ".tmp-1" dst ∈ unrenamed.shared.faults) := by
  have hname : (unrenamed.shared.disks false).names ".tmp-1" = some 0 := by decide
  have hfile : (unrenamed.shared.disks false).files[0]? = some ⟨"a", 0o644, 0, some 0, "a"⟩ := by
    decide
  have hreturned : (unrenamed.threads[0]?.bind fun t => t.prog.result?).isSome = true := by
    decide
  obtain ⟨a, ha⟩ := Option.isSome_iff_exists.mp hreturned
  obtain ⟨t, ht, hres⟩ := Option.bind_eq_some_iff.mp ha
  exact ⟨Directory.file?_of _ hname hfile, leftovers_from_faults untried_empty
    (Pool.reaches_after _) ht hres (by decide) hname hfile rfl⟩

end Berth.Acquire
