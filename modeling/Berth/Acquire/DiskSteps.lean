/-
Berth.Acquire.DiskSteps — what a process does to a state directory, one
step at a time.

What stands under one of the published names is never changed, only
replaced, by the one step that renames a finished file. `Holding` is what a
process knows between making its temporary file and that step, `Idle` what
it knows otherwise.

`Shows` is what the directory is in `Acquire/Fleet.lean`: the contents
under the published names, whatever else there is.
-/
import Berth.Acquire.Disk
import Berth.Acquire.SidecarTheorems
import Berth.Files.Publish

namespace Berth.Acquire

open Berth.Files Berth.Interleave Berth.Lease

/-! ## Finished files -/

/-- Under `name`, a file of a Pod with this holder is finished: it has all
that was to be written to it, and says what it should. -/
def Finished (exe holder name : String) (f : File) : Prop :=
  f.content = f.due ∧
    if name = checkName then f.content = exe ∧ f.mode = 0o755
    else f.mode = 0o644 ∧ ∃ g : StateFile, g.name = name ∧ g.Says holder f.content

/-! ## What the coarser model sees -/

/-- The marker's time there is that of the rename, which is not earlier than
that of the write. -/
structure Shows (d : Directory) (v : StateDir) : Prop where
  holder : v.holder = (d.file? StateFile.holder.name).map File.content
  token : v.token = (d.file? StateFile.token.name).map File.content
  healthy : Option.Rel (fun f stamp => f.mtime ≤ stamp) (d.file? StateFile.healthy.name) v.healthy

theorem published_name (f : StateFile) : Published f.name := by cases f <;> decide

theorem name_ne_check (f : StateFile) : f.name ≠ checkName := by cases f <;> decide

section Shows

variable {d d' : Directory} {v : StateDir}

theorem Shows.congr (h : Shows d v) (hd : ∀ f : StateFile, d'.file? f.name = d.file? f.name) :
    Shows d' v where
  holder := by rw [h.holder, hd .holder]
  token := by rw [h.token, hd .token]
  healthy := by
    rw [hd .healthy]
    exact h.healthy

/-- Anything under temporary names is invisible. -/
theorem Shows.kept {i : Nat} (h : Shows d v) (hk : Kept Published i d d')
    (hnames : ∀ f : StateFile, d'.names f.name = d.names f.name) : Shows d' v :=
  h.congr fun f => hk.file?_eq (published_name f) (hnames f)

/-- The renamed file becomes visible, and nothing else changes. -/
theorem Shows.rename {tmp : String} {n : Nat} {file : File} {f : StateFile} {data : String}
    {now : Time} (h : Shows d v) (hn : d.names tmp = some n) (hf : d.files[n]? = some file)
    (htmp : ¬ Published tmp) (hdata : file.content = data) (hnow : file.mtime ≤ now) :
    Shows (d.rename tmp f.name n hn) (v.write now data f) := by
  have hself : (d.rename tmp f.name n hn).file? f.name = some file :=
    Directory.file?_of _ (Directory.names_rename_dst _ hn) hf
  have hother : ∀ g : StateFile, g.name ≠ f.name →
      (d.rename tmp f.name n hn).file? g.name = d.file? g.name := fun g hg =>
    Directory.file?_congr (d.names_rename_of_ne hn (fun heq => htmp (heq ▸ published_name g)) hg)
      fun _ _ => rfl
  cases f with
  | holder =>
    refine ⟨by simp [StateDir.write, hself, hdata], ?_, ?_⟩
    · rw [hother .token (by decide)]
      exact h.token
    · rw [hother .healthy (by decide)]
      exact h.healthy
  | token =>
    refine ⟨?_, by simp [StateDir.write, hself, hdata], ?_⟩
    · rw [hother .holder (by decide)]
      exact h.holder
    · rw [hother .healthy (by decide)]
      exact h.healthy
  | healthy =>
    refine ⟨?_, ?_, ?_⟩
    · rw [hother .holder (by decide)]
      exact h.holder
    · rw [hother .token (by decide)]
      exact h.token
    · rw [hself]
      exact .some hnow

theorem Shows.unlink_healthy (h : Shows d v) :
    Shows (d.unlink StateFile.healthy.name) (v.erase .healthy) := by
  have hother : ∀ f : StateFile, f.name ≠ StateFile.healthy.name →
      (d.unlink StateFile.healthy.name).file? f.name = d.file? f.name := fun f hf =>
    Directory.file?_congr (d.names_unlink_of_ne hf) fun _ _ => rfl
  refine ⟨?_, ?_, ?_⟩
  · rw [hother .holder (by decide)]
    exact h.holder
  · rw [hother .token (by decide)]
    exact h.token
  · rw [Directory.file?, Directory.names_unlink_self]
    exact .none

/-- Reading gives the same in both models, but for the marker, which has no
content there. -/
theorem Shows.read {f : StateFile} (h : Shows d v) (hf : f ≠ .healthy) :
    v.read f = (d.file? f.name).map File.content := by
  cases f with
  | holder => exact h.holder
  | token => exact h.token
  | healthy => exact absurd rfl hf

theorem Shows.healthy_isSome (h : Shows d v) :
    v.healthy.isSome = (d.names StateFile.healthy.name).isSome := by
  have hfile : (d.file? StateFile.healthy.name).isSome =
      (d.names StateFile.healthy.name).isSome := by
    cases hn : d.names StateFile.healthy.name with
    | none => simp [Directory.file?, hn]
    | some n => simp [Directory.file?, hn, d.bounded hn]
  rw [← hfile]
  have hrel := h.healthy
  generalize d.file? StateFile.healthy.name = x at hrel ⊢
  generalize v.healthy = y at hrel ⊢
  cases hrel with
  | some _ => rfl
  | none => rfl

end Shows

variable {ι : Type} {F : Fleet ι} {cfg : Server.Config}

/-- The site with these directories. -/
def Site.withDirs (s : Site ι cfg) (dirs : ι → StateDir) : Site ι cfg :=
  { s with pods := fun j => { s.pods j with dir := dirs j } }

/-- The state of the coarser model. -/
def Abstracts (n : Disks ι cfg) (m : Site ι cfg) : Prop :=
  ∃ dirs, m = n.site.withDirs dirs ∧ ∀ j, Shows (n.disks j) (dirs j)

section Site

variable [DecidableEq ι] {s s' : Site ι cfg} {dirs : ι → StateDir} {c c' : Start ι} {i : Nat}

theorem setDir_withDirs (j : ι) (v : StateDir) :
    (s.withDirs dirs).setDir j v = s.withDirs (Function.update dirs j v) := by
  simp only [Site.withDirs, Site.setDir, Site.update, Site.mk.injEq, true_and]
  funext k
  by_cases hk : k = j
  · subst hk
    simp
  · simp [hk]

/-- What leaves the directory of a Pod alone can be done to it with any
directory. -/
theorem update_withDirs {f : Pod → Pod} (hf : ∀ p v, f { p with dir := v } = { f p with dir := v })
    (j : ι) : (s.update j f).withDirs dirs = (s.withDirs dirs).update j f := by
  simp only [Site.withDirs, Site.update, Site.mk.injEq, true_and]
  funext k
  by_cases hk : k = j
  · subst hk
    simp only [Function.update_self]
    exact (hf (s.pods k) (dirs k)).symm
  · simp [hk]

omit [DecidableEq ι] in
theorem alive_withDirs : alive c i (s.withDirs dirs) = alive c i s := rfl

/-- Effects that do not touch the directory do not depend on it. -/
theorem execLive_withDirs {ch : Choice} {o : HelperOp} {r : o.Res} (ho : o.onDisk = false)
    (h : execLive F ch o c s = some (r, s')) :
    execLive F ch o c (s.withDirs dirs) = some (r, s'.withDirs dirs) := by
  cases o with
  | readFile f => cases ho
  | writeFileAtomic f data => cases ho
  | remove f => cases ho
  | installCheckBinary => cases ho
  | now =>
    cases h
    rfl
  | post key endpoint =>
    cases h
    simp only [execLive]
    rw [← update_withDirs fun _ _ => rfl]
    rfl
  | assign rt =>
    simp only [execLive] at h ⊢
    split at h
    · next hside =>
      cases h
      rw [if_pos hside, ← update_withDirs fun _ _ => rfl]
    · cases h
  | await id =>
    cases ch with
    | ok =>
      simp only [execLive, Option.map_eq_some_iff] at h ⊢
      obtain ⟨resp, hresp, heq⟩ := h
      cases heq
      exact ⟨resp, hresp, rfl⟩
    | fail e =>
      cases h
      rfl
    | _ => cases h
  | select expiry =>
    simp only [execLive] at h ⊢
    split at h
    · split at h
      · next hex =>
        cases h
        simp [hex]
      · cases h
    · cases h
      simp
    · cases h
  | _ =>
    cases ch <;> cases h <;> rfl

theorem enter_withDirs {n : Nat} (h : enter n c s = some (c', s')) :
    enter n c (s.withDirs dirs) = some (c', s'.withDirs dirs) := by
  obtain ⟨rfl, ⟨hside, rfl⟩ | ⟨hside, hrel, rfl⟩⟩ := enter_cases h
  · simp [enter, hside]
  · have hrel' : ((s.withDirs dirs).pods c'.pod).releasing = false := hrel
    simp only [enter, hside, if_true, hrel', Bool.false_eq_true, if_false]
    rw [← update_withDirs fun _ _ => rfl]

/-- The environment changes the server only, and does not look at the
directories. -/
theorem envStep_withDirs {e : Env F} {p : Pool (Server.machine cfg)} (he : ∀ j d, e ≠ .disk j d)
    (h : envStep e s = some { s with server := p }) :
    envStep e (s.withDirs dirs) = some { s.withDirs dirs with server := p } := by
  cases e with
  | disk j d => exact absurd rfl (he j d)
  | _ =>
    simp only [envStep, Env.action?, Option.bind_some, Option.map_eq_some_iff] at h ⊢
    obtain ⟨p', hp, heq⟩ := h
    exact ⟨p', hp, by rw [← (Site.mk.inj heq).1]⟩

theorem execLive_server {ch : Choice} {o : HelperOp} {r : o.Res}
    (h : execLive F ch o c s = some (r, s')) : s.server.Reaches s'.server := by
  by_cases ho : o.quiet = true
  · rcases execLive_quiet ho h with rfl | ⟨d, rfl⟩ <;> exact .refl
  cases o with
  | post key endpoint =>
    cases h
    exact Client.submit_reaches
  | assign rt =>
    simp only [execLive] at h
    split at h
    · cases h
      exact .refl
    · cases h
  | _ => exact absurd rfl ho

end Site

/-! ## The discipline on disk -/

/-- A temporary name that a process could not get rid of. -/
def Leftover (faults : List (Fault ι)) (j : ι) (name : String) : Prop :=
  .remove j name ∈ faults ∨ ∃ dst, dst ≠ checkName ∧ .rename j name dst ∈ faults

/-- If `name` is a temporary name of a file of process `i`, it is left over. -/
def Excused (i : Nat) (s : Disks ι cfg) (j : ι) (name : String) : Prop :=
  ∀ n f, ¬ Published name → (s.disks j).names name = some n → (s.disks j).files[n]? = some f →
    f.maker = some i → Leftover s.faults j name

/-- Process `i` is writing no file. -/
def Idle (i : Nat) (_ : Start ι) (s : Disks ι cfg) : Prop := ∀ j name, Excused i s j name

/-- Process `i` is writing `f`, and nothing else. -/
structure Holding (i : Nat) (c : Start ι) (tmp : Temp) (f : File) (s : Disks ι cfg) : Prop where
  name : (s.disks c.pod).names tmp.name = some tmp.file
  file : (s.disks c.pod).files[tmp.file]? = some f
  maker : f.maker = some i
  hidden : ¬ Published tmp.name
  mtime : f.mtime ≤ s.site.clock
  rest : ∀ j name, (j, name) ≠ (c.pod, tmp.name) → Excused i s j name

/-- The invariant. -/
structure Disks.Ok (F : Fleet ι) (exe : String) (s : Disks ι cfg) : Prop where
  server : ∃ t₀, (Server.fresh cfg t₀).Reaches s.site.server
  whole : ∀ j, Whole Published (Finished exe (F.holder j)) (s.disks j)

/-- What process `i` finds changed between two of its steps. -/
structure Around (i : Nat) (_ : Start ι) (s s' : Disks ι cfg) : Prop where
  disks : ∀ j, Untouched Published i (s.disks j) (s'.disks j)
  clock : s.site.clock ≤ s'.site.clock
  faults : s.faults ⊆ s'.faults

/-- What one step of process `i` changes. -/
structure Does (F : Fleet ι) (exe : String) (i : Nat) (_ : Start ι) (s s' : Disks ι cfg) :
    Prop where
  ok : s'.Ok F exe
  disks : ∀ j, Kept Published i (s.disks j) (s'.disks j)
  clock : s.site.clock ≤ s'.site.clock
  faults : s.faults ⊆ s'.faults

section Discipline

variable {exe : String} {i : Nat} {c : Start ι} {s s' s'' : Disks ι cfg} {tmp : Temp} {f : File}

theorem Around.refl (i : Nat) (c : Start ι) (s : Disks ι cfg) : Around i c s s :=
  ⟨fun _ => .refl _ _, Int.le_refl _, List.Subset.refl _⟩

theorem Around.trans (h : Around i c s s') (h' : Around i c s' s'') : Around i c s s'' :=
  ⟨fun j => (h.disks j).trans (h'.disks j), Int.le_trans h.clock h'.clock,
    List.Subset.trans h.faults h'.faults⟩

theorem Does.around {k : Nat} {c' : Start ι} (h : Does F exe i c s s') (hik : i ≠ k) :
    Around k c' s s' :=
  ⟨fun j => (h.disks j).others k hik.symm, h.clock, h.faults⟩

/-- A step that leaves the disks alone. -/
theorem around_site {site : Site ι cfg} (h : s.site.clock ≤ site.clock) :
    Around i c s { s with site := site } :=
  ⟨fun _ => .refl _ _, h, List.Subset.refl _⟩

theorem Leftover.mono {faults faults' : List (Fault ι)} {j : ι} {name : String}
    (h : Leftover faults j name) (hsub : faults ⊆ faults') : Leftover faults' j name := by
  rcases h with h | ⟨dst, hdst, h⟩
  · exact .inl (hsub h)
  · exact .inr ⟨dst, hdst, hsub h⟩

theorem Excused.around {j : ι} {name : String} (h : Excused i s j name) (ha : Around i c s s') :
    Excused i s' j name := by
  intro n f hname hn hf hmaker
  have hf₀ := ((ha.disks j).files hmaker).mp hf
  have hn₀ := ((ha.disks j).names hname hf₀ hmaker).mp hn
  exact (h n f hname hn₀ hf₀ hmaker).mono ha.faults

theorem Idle.around (h : Idle i c s) (ha : Around i c s s') : Idle i c s' :=
  fun j name => (h j name).around ha

theorem Holding.around (h : Holding i c tmp f s) (ha : Around i c s s') :
    Holding i c tmp f s' where
  name := ((ha.disks c.pod).names h.hidden h.file h.maker).mpr h.name
  file := ((ha.disks c.pod).files h.maker).mpr h.file
  maker := h.maker
  hidden := h.hidden
  mtime := Int.le_trans h.mtime ha.clock
  rest := fun j name hne => (h.rest j name hne).around ha

/-- A process that gives up a file it could not get rid of. -/
theorem Holding.idle (h : Holding i c tmp f s) (hleft : Leftover s.faults c.pod tmp.name) :
    Idle i c s := by
  intro j name
  by_cases hne : (j, name) = (c.pod, tmp.name)
  · cases hne
    exact fun _ _ _ _ _ _ => hleft
  · exact h.rest j name hne

theorem Disks.Ok.serve {site : Site ι cfg} (h : s.Ok F exe) (hr : s.site.server.Reaches site.server) :
    Disks.Ok F exe { s with site := site } ∧ s.site.clock ≤ site.clock := by
  obtain ⟨t₀, h₀⟩ := h.server
  exact ⟨⟨⟨t₀, h₀.trans hr⟩, h.whole⟩, (reaches_suffix h.server hr).2⟩

variable [DecidableEq ι]

theorem enterOnDisk_cases {n : Nat} {c' : Start ι} (h : enterOnDisk n c s = some (c', s')) :
    ∃ site, enter n c s.site = some (c', site) ∧ s' = { s with site := site } ∧
      s.site.server.Reaches site.server := by
  obtain ⟨⟨c₁, site⟩, hent, heq⟩ := Option.map_eq_some_iff.mp h
  cases heq
  refine ⟨site, hent, rfl, ?_⟩
  obtain ⟨_, ⟨_, rfl⟩ | ⟨_, _, rfl⟩⟩ := enter_cases hent <;> exact .refl

theorem envOnDisk_cases {e : Env F} (h : envOnDisk e s = some s') :
    ∃ p, envStep e s.site = some { s.site with server := p } ∧ (∀ j d, e ≠ .disk j d) ∧
      s' = { s with site := { s.site with server := p } } ∧ s.site.server.Reaches p := by
  cases e with
  | disk j d => cases h
  | _ =>
    simp only [envOnDisk, envStep, Env.action?, Option.bind_some, Option.map_eq_some_iff] at h
    obtain ⟨site, ⟨p, hp, rfl⟩, rfl⟩ := h
    refine ⟨p, ?_, fun _ _ heq => (by cases heq), rfl, .single ⟨_, hp⟩⟩
    simp only [envStep, Env.action?, Option.bind_some, hp, Option.map_some]

/-- The discipline of the processes on disk. -/
def diskDiscipline (F : Fleet ι) (cfg : Server.Config) (exe : String) :
    Discipline (onDisk F cfg exe).machine where
  adm := fun _ => True
  inv := Disks.Ok F exe
  unborn := fun i s => ∀ (j : ι) (n : Nat) (f : File), (s.disks j).files[n]? = some f →
    f.maker ≠ some i
  guar := Does F exe
  interf := Around
  refl := Around.refl
  trans := Around.trans
  guar_inv := fun _ _ hg => hg.ok
  guar_interf := fun hij _ _ hg => hg.around hij
  env_inv := fun hs _ he => by
    obtain ⟨p, _, _, rfl, hr⟩ := envOnDisk_cases he
    refine (hs.serve ?_).1
    exact hr
  env_interf := fun hs _ he => by
    obtain ⟨p, _, _, rfl, hr⟩ := envOnDisk_cases he
    refine around_site (hs.serve ?_).2
    exact hr
  start_inv := fun hs _ he => by
    obtain ⟨site, _, rfl, hr⟩ := enterOnDisk_cases he
    exact (hs.serve hr).1
  start_interf := fun _ hs _ he => by
    obtain ⟨site, _, rfl, hr⟩ := enterOnDisk_cases he
    exact around_site (hs.serve hr).2
  unborn_interf := fun hi hu j n f hf hmaker =>
    hu j n f ((((hi ⟨j, .init 0⟩).disks j).files hmaker).mp hf) hmaker

end Discipline

/-! ## One step on disk -/

section Step

variable {exe : String} {i : Nat} {c c' : Start ι} {s s' : Disks ι cfg}
  {m : Site ι cfg} {tmp : Temp} {f : File} {d : Directory} {j : ι} {ch : DiskChoice}

theorem does_refl (hs : s.Ok F exe) : Does F exe i c s s :=
  ⟨hs, fun _ => .refl _ _, Int.le_refl _, List.Subset.refl _⟩

theorem does_fault (hs : s.Ok F exe) (x : Fault ι) : Does F exe i c s (s.fault x) :=
  ⟨⟨hs.server, hs.whole⟩, fun _ => .refl _ _, Int.le_refl _, List.subset_cons_self _ _⟩

theorem Abstracts.fault (h : Abstracts s m) (x : Fault ι) : Abstracts (s.fault x) m := h

theorem Abstracts.alive (h : Abstracts s m) : alive c i m = alive c i s.site := by
  obtain ⟨dirs, rfl, _⟩ := h
  exact alive_withDirs

theorem Abstracts.clock (h : Abstracts s m) : m.clock = s.site.clock := by
  obtain ⟨dirs, rfl, _⟩ := h
  rfl

/-- A rename that failed. -/
theorem Holding.fault (h : Holding i c tmp f s) (x : Fault ι) : Holding i c tmp f (s.fault x) :=
  h.around ⟨fun _ => .refl _ _, Int.le_refl _, List.subset_cons_self _ _⟩

variable [DecidableEq ι]

@[simp] theorem disks_setDisk_self : (s.setDisk j d).disks j = d := Function.update_self ..

theorem disks_setDisk_of_ne {j' : ι} (h : j' ≠ j) : (s.setDisk j d).disks j' = s.disks j' :=
  Function.update_of_ne h ..

theorem forall_setDisk {P : ι → Directory → Prop} (hd : P j d) (h : ∀ j', P j' (s.disks j'))
    (j' : ι) : P j' ((s.setDisk j d).disks j') := by
  by_cases hj : j' = j
  · subst hj
    rwa [disks_setDisk_self]
  · rw [disks_setDisk_of_ne hj]
    exact h j'

theorem execOnDisk_cases {o : DiskOp} {r : o.Res}
    (h : execOnDisk F exe i ch o c s = some (r, c', s')) :
    c' = c ∧ alive c i s.site = true ∧ execDisk F exe i ch o c s = some (r, s') := by
  unfold execOnDisk at h
  split at h
  · next halive =>
    obtain ⟨⟨r', s₁⟩, hexec, heq⟩ := Option.map_eq_some_iff.mp h
    cases heq
    exact ⟨rfl, halive, hexec⟩
  · cases h

theorem execDisk_createTemp {pattern : String} {r : Except Err Temp}
    (h : execDisk F exe i ch (.createTemp pattern) c s = some (r, s')) :
    (∃ x, ∃ hfree : (s.disks c.pod).names (pattern ++ x) = none,
      r = .ok ⟨pattern ++ x, (s.disks c.pod).files.length⟩ ∧
      s' = s.setDisk c.pod ((s.disks c.pod).create (pattern ++ x)
        ⟨"", 0o600, s.site.clock, some i, ""⟩ hfree)) ∨
    (∃ e, r = .error e ∧ s' = s) := by
  cases ch with
  | suffix x =>
    simp only [execDisk] at h
    split at h
    · next hfree =>
      cases h
      exact .inl ⟨x, hfree, rfl, rfl⟩
    · cases h
  | fail e =>
    cases h
    exact .inr ⟨e, rfl, rfl⟩
  | _ => cases h

/-- A write adds all of the data, or something and an error. -/
theorem writeTo_cases {file : Nat} {data : String} {r : Except Err Unit}
    (h : writeTo ch s j file data = some (r, s')) :
    ∃ part, s' = appendTo s j file part data ∧ (r = .ok () → part = data) := by
  cases ch with
  | ok =>
    cases h
    exact ⟨data, rfl, fun _ => rfl⟩
  | short n e =>
    cases h
    exact ⟨_, rfl, fun hr => by cases hr⟩
  | _ => cases h

theorem execDisk_chmod {file mode : Nat} {r : Except Err Unit}
    (h : execDisk F exe i ch (.chmod file mode) c s = some (r, s')) :
    (r = .ok () ∧ s' = s.setDisk c.pod ((s.disks c.pod).modify file fun f =>
      { f with mode := mode })) ∨ (∃ e, r = .error e ∧ s' = s) := by
  cases ch with
  | ok =>
    cases h
    exact .inl ⟨rfl, rfl⟩
  | fail e =>
    cases h
    exact .inr ⟨e, rfl, rfl⟩
  | _ => cases h

theorem execDisk_close {file : Nat} {r : Except Err Unit}
    (h : execDisk F exe i ch (.close file) c s = some (r, s')) : s' = s := by
  cases ch <;> cases h <;> rfl

theorem execDisk_rename {old new : String} {r : Except Err Unit} {n : Nat}
    (hn : (s.disks c.pod).names old = some n)
    (h : execDisk F exe i ch (.rename old new) c s = some (r, s')) :
    (r = .ok () ∧ s' = s.setDisk c.pod ((s.disks c.pod).rename old new n hn)) ∨
    (∃ e, r = .error e ∧ s' = s.fault (.rename c.pod old new)) := by
  cases ch with
  | ok =>
    simp only [execDisk] at h
    split at h
    · next n' hn' =>
      cases h
      cases hn.symm.trans hn'
      exact .inl ⟨rfl, rfl⟩
    · next hnone =>
      rw [hn] at hnone
      cases hnone
  | fail e =>
    cases h
    exact .inr ⟨e, rfl, rfl⟩
  | _ => cases h

theorem execDisk_remove {name : String} {r : Except SysErr Unit}
    (h : execDisk F exe i ch (.remove name) c s = some (r, s')) :
    (r = .ok () ∧ ((s.disks c.pod).names name).isSome = true ∧
      s' = s.setDisk c.pod ((s.disks c.pod).unlink name)) ∨
    (r = .error .absent ∧ (s.disks c.pod).names name = none ∧ s' = s) ∨
    (∃ e, r = .error (.other e) ∧ s' = s.fault (.remove c.pod name)) := by
  cases ch with
  | ok =>
    simp only [execDisk] at h
    split at h
    · next n hn =>
      cases h
      exact .inl ⟨rfl, by simp [hn], rfl⟩
    · next hnone =>
      cases h
      exact .inr (.inl ⟨rfl, hnone, rfl⟩)
  | fail e =>
    cases h
    exact .inr (.inr ⟨e, rfl, rfl⟩)
  | _ => cases h

theorem does_setDisk (hs : s.Ok F exe) (hk : Kept Published i (s.disks j) d)
    (hw : Whole Published (Finished exe (F.holder j)) d) :
    Does F exe i c s (s.setDisk j d) where
  ok := ⟨hs.server,
    forall_setDisk (P := fun j => Whole Published (Finished exe (F.holder j))) hw hs.whole⟩
  disks := forall_setDisk (P := fun j' => Kept Published i (s.disks j')) hk fun _ => .refl _ _
  clock := Int.le_refl _
  faults := List.Subset.refl _

theorem Abstracts.setDisk (h : Abstracts s m) (hk : Kept Published i (s.disks j) d)
    (hnames : ∀ f : StateFile, d.names f.name = (s.disks j).names f.name) :
    Abstracts (s.setDisk j d) m := by
  obtain ⟨dirs, rfl, hdirs⟩ := h
  exact ⟨dirs, rfl, forall_setDisk (P := fun j' d => Shows d (dirs j'))
    ((hdirs j).kept hk hnames) hdirs⟩

/-- The directory of one Pod changes in both models. -/
theorem Abstracts.setDir (h : Abstracts s m) {g : StateDir → StateDir}
    (hd : ∀ v, Shows (s.disks j) v → Shows d (g v)) :
    Abstracts (s.setDisk j d) (m.setDir j (g (m.pods j).dir)) := by
  obtain ⟨dirs, rfl, hdirs⟩ := h
  refine ⟨Function.update dirs j (g (dirs j)), setDir_withDirs j _, fun j' => ?_⟩
  by_cases hj : j' = j
  · subst hj
    rw [disks_setDisk_self, Function.update_self]
    exact hd _ (hdirs j')
  · rw [disks_setDisk_of_ne hj, Function.update_of_ne hj]
    exact hdirs j'

theorem Excused.setDisk_of_ne {j' : ι} {name : String} (h : Excused i s j' name) (hj : j' ≠ j) :
    Excused i (s.setDisk j d) j' name := by
  intro n f hname hn hf hmaker
  rw [disks_setDisk_of_ne hj] at hn hf
  exact h n f hname hn hf hmaker

/-- Making a temporary file. -/
theorem create_step {name : String} (hs : s.Ok F exe) (hidle : Idle i c s)
    (hfree : (s.disks c.pod).names name = none) (hname : ¬ Published name)
    (hf : f.maker = some i) (hclock : f.mtime ≤ s.site.clock) :
    Does F exe i c s (s.setDisk c.pod ((s.disks c.pod).create name f hfree)) ∧
      (Abstracts s m → Abstracts (s.setDisk c.pod ((s.disks c.pod).create name f hfree)) m) ∧
      Holding i c ⟨name, (s.disks c.pod).files.length⟩ f
        (s.setDisk c.pod ((s.disks c.pod).create name f hfree)) := by
  have hk := kept_create hfree hf hname
  have hne : ∀ g : StateFile, g.name ≠ name := fun g heq => hname (heq ▸ published_name g)
  refine ⟨does_setDisk hs hk (whole_create (hs.whole _) hfree hname), fun habs =>
    habs.setDisk hk fun g => Directory.names_create_of_ne _ hfree (hne g), ?_⟩
  refine ⟨by simp, by simp, hf, hname, hclock, fun j name' hother => ?_⟩
  by_cases hj : j = c.pod
  · subst hj
    have hne' : name' ≠ name := fun heq => hother (by rw [heq])
    intro n f' hpub hn hf' hmaker
    rw [disks_setDisk_self] at hn hf'
    rw [Directory.names_create_of_ne _ hfree hne'] at hn
    rcases Directory.files_create_cases _ hfree hf' with hf' | ⟨rfl, _⟩
    · exact hidle _ name' n f' hpub hn hf' hmaker
    · exact absurd (Directory.bounded _ hn) (Nat.lt_irrefl _)
  · exact (hidle j name').setDisk_of_ne hj

/-- Changing the file while it has its temporary name. -/
theorem modify_step {g : File → File} (hs : s.Ok F exe) (h : Holding i c tmp f s)
    (hg : (g f).maker = some i) (hclock : (g f).mtime ≤ s.site.clock) :
    Does F exe i c s (s.setDisk c.pod ((s.disks c.pod).modify tmp.file g)) ∧
      (Abstracts s m → Abstracts (s.setDisk c.pod ((s.disks c.pod).modify tmp.file g)) m) ∧
      Holding i c tmp (g f) (s.setDisk c.pod ((s.disks c.pod).modify tmp.file g)) := by
  have hk := kept_modify (g := g) h.name h.file h.maker hg h.hidden
  refine ⟨does_setDisk hs hk (whole_modify (hs.whole _) h.name h.hidden), fun habs =>
    habs.setDisk hk fun _ => rfl, ?_⟩
  refine ⟨by simpa using h.name, by simpa using Directory.files_modify_self _ h.file, hg, h.hidden,
    hclock, fun j name hother => ?_⟩
  by_cases hj : j = c.pod
  · subst hj
    intro n f' hpub hn hf' hmaker
    rw [disks_setDisk_self] at hn hf'
    have hne : n ≠ tmp.file := fun heq =>
      hother (by rw [Directory.injective _ h.name (heq ▸ hn)])
    rw [Directory.files_modify_of_ne _ hne] at hf'
    exact h.rest _ name hother n f' hpub hn hf' hmaker
  · exact (h.rest j name hother).setDisk_of_ne hj

/-- Once the temporary name leads nowhere, the process is idle. -/
theorem Holding.idle_of_gone (h : Holding i c tmp f s) (hgone : d.names tmp.name = none)
    (hnames : ∀ name n, ¬ Published name → d.names name = some n →
      (s.disks c.pod).names name = some n) (hfiles : d.files = (s.disks c.pod).files) :
    Idle i c (s.setDisk c.pod d) := by
  intro j name
  by_cases hj : j = c.pod
  · subst hj
    intro n f' hpub hn hf' hmaker
    rw [disks_setDisk_self] at hn hf'
    rw [hfiles] at hf'
    by_cases hne : name = tmp.name
    · rw [hne, hgone] at hn
      cases hn
    · refine h.rest _ name (fun heq => hne ?_) n f' hpub (hnames name n hpub hn) hf' hmaker
      exact (Prod.mk.inj heq).2
  · refine (h.rest j name fun heq => hj ?_).setDisk_of_ne hj
    exact (Prod.mk.inj heq).1

/-- Removing the temporary file, or failing to. -/
theorem discard_step {r : Except SysErr Unit} (hs : s.Ok F exe) (h : Holding i c tmp f s)
    (hex : execDisk F exe i ch (.remove tmp.name) c s = some (r, s')) :
    Does F exe i c s s' ∧ (Abstracts s m → Abstracts s' m) ∧ Idle i c s' := by
  rcases execDisk_remove hex with ⟨_, _, rfl⟩ | ⟨_, hnone, _⟩ | ⟨e, _, rfl⟩
  · have hk : Kept Published i (s.disks c.pod) ((s.disks c.pod).unlink tmp.name) :=
      kept_unlink (.inr ⟨tmp.file, f, h.name, h.file, h.maker⟩)
    have hnames : ∀ name, name ≠ tmp.name →
        ((s.disks c.pod).unlink tmp.name).names name = (s.disks c.pod).names name :=
      fun name hne => Directory.names_unlink_of_ne _ hne
    refine ⟨does_setDisk hs hk (whole_unlink (hs.whole _)), fun habs => habs.setDisk hk fun g =>
      hnames _ fun heq => h.hidden (heq ▸ published_name g), ?_⟩
    refine h.idle_of_gone (Directory.names_unlink_self _) (fun name n _ hn => ?_) rfl
    rwa [hnames name fun heq => by rw [heq, Directory.names_unlink_self] at hn; cases hn] at hn
  · rw [h.name] at hnone
    cases hnone
  · refine ⟨does_fault hs _, fun habs => habs.fault _, ?_⟩
    exact (h.fault (.remove c.pod tmp.name)).idle (.inl (List.mem_cons_self ..))

/-- Publishing the file. -/
theorem publish_step {dst : String} (hs : s.Ok F exe) (h : Holding i c tmp f s)
    (hdst : Published dst) (hfin : Finished exe (F.holder c.pod) dst f) :
    Does F exe i c s (s.setDisk c.pod ((s.disks c.pod).rename tmp.name dst tmp.file h.name)) ∧
      Idle i c (s.setDisk c.pod ((s.disks c.pod).rename tmp.name dst tmp.file h.name)) := by
  have hne : tmp.name ≠ dst := fun heq => h.hidden (heq ▸ hdst)
  have hk := kept_rename h.name h.file h.maker hdst
  refine ⟨does_setDisk hs hk (whole_rename (hs.whole _) h.name h.file hfin h.hidden), ?_⟩
  refine h.idle_of_gone (Directory.names_rename_src _ h.name hne) (fun name n hpub hn => ?_) rfl
  have hdst' : name ≠ dst := fun heq => hpub (heq ▸ hdst)
  by_cases htmp : name = tmp.name
  · rw [htmp, Directory.names_rename_src _ h.name hne] at hn
    cases hn
  · rwa [Directory.names_rename_of_ne _ h.name htmp hdst'] at hn

end Step

end Berth.Acquire
