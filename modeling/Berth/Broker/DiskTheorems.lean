/-
Berth.Broker.DiskTheorems — the token file at every moment.

Brokers change files of their own under temporary names only, and rename a
file once the whole token is in it. So whatever the interleaving and
wherever processes stop, the token file is the one that was found or holds
what was published last, and that is a token the provider issued, complete
(`Later`).

All this needs that no temporary name is the path of the token file, which
`TempLike` excludes.
-/
import Berth.Broker.Disk
import Berth.Broker.LoopTheorems
import Berth.Files.Publish
import Berth.Interleave.PoolTheorems

namespace Berth.Broker

open Berth.Files Berth.Interleave Berth.Lease

/-! ## Temporary names -/

theorem lastElement_append {dir name : List Char} (h : '/' ∉ name) :
    lastElement (String.ofList (dir ++ '/' :: name)) = name := by
  have hall : ∀ c ∈ name.reverse, decide (c ≠ '/') = true := by
    intro c hc
    have hne : c ≠ '/' := fun heq => h (heq ▸ List.mem_reverse.mp hc)
    simpa using hne
  have hrev : (dir ++ '/' :: name).reverse = name.reverse ++ '/' :: dir.reverse := by simp
  rw [lastElement, String.toList_ofList, hrev, List.takeWhile_append_of_pos hall]
  simp

theorem joinPath_eq (dir name : String) :
    ∃ above : List Char, joinPath dir name = String.ofList (above ++ '/' :: name.toList) := by
  unfold joinPath
  split
  · next hlast =>
    obtain ⟨above, habove⟩ := List.getLast?_eq_some_iff.mp hlast
    refine ⟨above, String.toList_injective ?_⟩
    rw [String.toList_append, habove, String.toList_ofList]
    simp
  · refine ⟨dir.toList, String.toList_injective ?_⟩
    rw [String.toList_append, String.toList_append, String.toList_ofList]
    simp

/-- A temporary file of the broker is not the token file. -/
theorem tempName_ne {path : String} (h : ¬ TempLike path) (dir : String) (n : Nat) :
    tempName dir ".token-" n ≠ path := by
  rintro rfl
  obtain ⟨above, habove⟩ := joinPath_eq dir (".token-" ++ Nat.repr n)
  have hslash : '/' ∉ (".token-" ++ Nat.repr n).toList := by
    rw [String.toList_append, List.mem_append]
    rintro (hmem | hmem)
    · exact absurd hmem (by decide)
    · rw [Nat.repr, String.toList_ofList] at hmem
      have hdigit := Nat.isDigit_of_mem_toDigits (by decide) (by decide) hmem
      exact absurd hdigit (by decide)
  refine h ?_
  rw [TempLike, tempName, habove, lastElement_append hslash, String.toList_append]
  exact List.prefix_append _ _

/-! ## The volume -/

section Volume

variable {path tmp text : String} {i k n mode : Nat} {l l' : Option Nat} {ch : BrokerChoice}
variable {s s' s'' : Volume} {f : File} {lc : LoopConfig}

/-- A token file that is done. -/
def Done (issued : List String) (f : File) : Prop := f.content ∈ issued ∧ f.mode = 0o600

/-- What becomes of the token file: it is the same, or the last of the
tokens that were published since is in it. -/
structure Later (path : String) (s s' : Volume) : Prop where
  issued : s.issued ⊆ s'.issued
  file : (s'.disk.file? path = s.disk.file? path ∧ s'.published = s.published) ∨
    ∃ f texts, s'.disk.file? path = some f ∧ Done s'.issued f ∧ texts ⊆ s'.issued ∧
      s'.published = f.content :: texts ++ s.published

theorem Later.refl (path : String) (s : Volume) : Later path s s :=
  ⟨List.Subset.refl _, .inl ⟨rfl, rfl⟩⟩

theorem Later.trans (h : Later path s s') (h' : Later path s' s'') : Later path s s'' := by
  refine ⟨List.Subset.trans h.issued h'.issued, ?_⟩
  rcases h'.file with ⟨hfile', hpub'⟩ | ⟨f', texts', hfile', hdone', hsub', hpub'⟩
  · rcases h.file with ⟨hfile, hpub⟩ | ⟨f, texts, hfile, hdone, hsub, hpub⟩
    · exact .inl ⟨hfile'.trans hfile, hpub'.trans hpub⟩
    · exact .inr ⟨f, texts, hfile'.trans hfile, ⟨h'.issued hdone.1, hdone.2⟩,
        List.Subset.trans hsub h'.issued, hpub'.trans hpub⟩
  · rcases h.file with ⟨-, hpub⟩ | ⟨f, texts, -, hdone, hsub, hpub⟩
    · exact .inr ⟨f', texts', hfile', hdone', hsub', by rw [hpub', hpub]⟩
    · refine .inr ⟨f', texts' ++ f.content :: texts, hfile', hdone', ?_, by simp [hpub', hpub]⟩
      refine List.append_subset.mpr ⟨hsub', List.cons_subset.mpr ⟨h'.issued hdone.1, ?_⟩⟩
      exact List.Subset.trans hsub h'.issued

theorem Later.suffix (h : Later path s s') : s.published <:+ s'.published := by
  rcases h.file with ⟨-, hpub⟩ | ⟨f, texts, -, -, -, hpub⟩
  · exact ⟨[], hpub.symm⟩
  · exact ⟨f.content :: texts, hpub.symm⟩

/-- From the beginning on: the token file is what was published last. -/
theorem Later.token_file {d : Directory} {now : Time} (h : Later path (Volume.found path d now) s)
    (hf : s.disk.file? path = some f) :
    s.published.head? = some f.content ∧ (d.file? path = some f ∨ Done s.issued f) := by
  rcases h.file with ⟨hfile, hpub⟩ | ⟨f', texts, hfile, hdone, -, hpub⟩
  · have hfound : d.file? path = some f := hfile.symm.trans hf
    refine ⟨?_, .inl hfound⟩
    simp [hpub, Volume.found, tokenText, hfound]
  · rw [hf] at hfile
    cases hfile
    exact ⟨by simp [hpub], .inr hdone⟩

/-- What process `i` finds changed between two of its steps. -/
structure Around (path : String) (i : Nat) (s s' : Volume) : Prop where
  disk : Untouched (· = path) i s.disk s'.disk
  issued : s.issued ⊆ s'.issued

/-- What one step of process `i` changes. -/
structure Does (path : String) (i : Nat) (s s' : Volume) : Prop where
  disk : Kept (· = path) i s.disk s'.disk
  later : Later path s s'

theorem Does.refl (path : String) (i : Nat) (s : Volume) : Does path i s s :=
  ⟨.refl _ _, .refl _ _⟩

/-- A step that leaves what is published as it is. -/
theorem does_disk {d : Directory} (hk : Kept (· = path) i s.disk d)
    (hnames : d.names path = s.disk.names path) : Does path i s { s with disk := d } :=
  ⟨hk, List.Subset.refl _, .inl ⟨hk.file?_eq rfl hnames, rfl⟩⟩

theorem does_issue (token : String) :
    Does path i s { s with issued := token :: s.issued } :=
  ⟨.refl _ _, List.subset_cons_self _ _, .inl ⟨rfl, rfl⟩⟩

def discipline (lc : LoopConfig) : Discipline (machine lc) where
  adm := fun _ => True
  inv := fun _ => True
  unborn := fun _ _ => True
  guar := fun i _ => Does lc.outputPath i
  interf := fun i _ => Around lc.outputPath i
  refl := fun _ _ _ => ⟨.refl _ _, List.Subset.refl _⟩
  trans := fun h h' => ⟨h.disk.trans h'.disk, List.Subset.trans h.issued h'.issued⟩
  guar_inv := fun _ _ _ => trivial
  guar_interf := fun hij _ _ h => ⟨h.disk.others _ hij.symm, h.later.issued⟩
  env_inv := fun _ _ _ => trivial
  env_interf := fun _ _ h => by cases h; exact ⟨.refl _ _, List.Subset.refl _⟩
  start_inv := fun _ _ _ => trivial
  start_interf := fun _ _ _ h => by cases h; exact ⟨.refl _ _, List.Subset.refl _⟩
  unborn_interf := fun _ _ => trivial

/-! ## Writing a token -/

/-- Process `i` has a temporary file. -/
structure Holding (path : String) (i : Nat) (tmp : String) (n : Nat) (f : File) (s : Volume) :
    Prop where
  name : s.disk.names tmp = some n
  file : s.disk.files[n]? = some f
  maker : f.maker = some i
  hidden : tmp ≠ path

theorem Holding.around (h : Holding path i tmp n f s) (hs : Around path i s s') :
    Holding path i tmp n f s' where
  name := (hs.disk.names h.hidden h.file h.maker).mpr h.name
  file := (hs.disk.files h.maker).mpr h.file
  maker := h.maker
  hidden := h.hidden

/-- Changing the file while it has its temporary name. -/
theorem modify_step {g : File → File} (h : Holding path i tmp n f s) (hg : (g f).maker = some i) :
    Does path i s { s with disk := s.disk.modify n g } ∧
      Holding path i tmp n (g f) { s with disk := s.disk.modify n g } :=
  ⟨does_disk (kept_modify h.name h.file h.maker hg h.hidden) rfl,
    ⟨h.name, Directory.files_modify_self _ h.file, hg, h.hidden⟩⟩

/-- Publishing it. -/
theorem publish_step (h : Holding path i tmp n f s) (hdone : Done s.issued f) :
    Does path i s { s with
      disk := s.disk.rename tmp path n h.name
      published := ((s.disk.file? tmp).map File.content).toList ++ s.published } := by
  have hfile : s.disk.file? tmp = some f := Directory.file?_of _ h.name h.file
  refine ⟨kept_rename h.name h.file h.maker rfl, List.Subset.refl _, .inr ⟨f, [], ?_, hdone, ?_, ?_⟩⟩
  · exact Directory.file?_of _ (Directory.names_rename_dst _ h.name) h.file
  · exact List.nil_subset _
  · rw [hfile]
    rfl

section Programs

variable {α : Type} {Q : α → Option Nat → Volume → Prop} {e : Err}
variable {k : Except Err Unit → Prog BrokerSig α}

/-- Effects that leave the volume alone. -/
def Quiet : BrokerOp → Prop
  | .ctxErr | .now | .sleep _ => True
  | _ => False

theorem exec_quiet {o : BrokerOp} {r : o.Res} (ho : Quiet o)
    (h : exec i ch o l s = some (r, l', s')) : l' = l ∧ s' = s := by
  cases o with
  | ctxErr | sleep d =>
    cases ch with
    | flag b =>
      cases h
      exact ⟨rfl, rfl⟩
    | _ => cases h
  | now =>
    cases h
    exact ⟨rfl, rfl⟩
  | _ => exact absurd ho id

theorem robust_quiet {p : Prog BrokerSig α} (hp : p.Only Quiet) (hQ : ∀ a l s, Q a l s) :
    Robust (discipline lc) i p Q l s := by
  refine Robust.of_only (R := fun _ _ => True) (fun _ => trivial) (fun _ _ => trivial)
    (fun ho _ hex => ?_) hp fun a s' _ _ => hQ a l s'
  obtain ⟨rfl, rfl⟩ := exec_quiet ho hex
  exact ⟨.refl _ _ _, rfl, trivial⟩

/-! One rule for each effect on the temporary file. -/

theorem robust_createTemp {dir : String} {k : Except Err String → Prog BrokerSig α}
    (hpath : ¬ TempLike lc.outputPath)
    (hfail : ∀ e s', Robust (discipline lc) i (k (.error e)) Q l s')
    (hk : ∀ tmp n f s', Holding lc.outputPath i tmp n f s' → f.content = "" → s.issued ⊆ s'.issued →
      Robust (discipline lc) i (k (.ok tmp)) Q (some n) s') :
    Robust (discipline lc) i (.op (.createTemp dir ".token-") k) Q l s := by
  intro s₁ h₁ _ ch r l₁ s₂ hex _
  change exec i ch (.createTemp dir ".token-") l s₁ = some (r, l₁, s₂) at hex
  cases ch with
  | random m =>
    simp only [exec] at hex
    split at hex
    · next hfree =>
      cases hex
      have hne : tempName dir ".token-" m ≠ lc.outputPath := tempName_ne hpath dir m
      refine ⟨does_disk (kept_create hfree rfl hne) (Directory.names_create_of_ne _ hfree hne.symm),
        ?_⟩
      exact hk _ _ _ _ ⟨Directory.names_create_self _ hfree, Directory.files_create_new _ hfree,
        rfl, hne⟩ rfl h₁.issued
    · cases hex
  | fail e =>
    cases hex
    exact ⟨.refl _ _ _, hfail e _⟩
  | _ => cases hex

theorem robust_writeString (h : Holding lc.outputPath i tmp n f s)
    (hk : ∀ r f' s', Holding lc.outputPath i tmp n f' s' → s.issued ⊆ s'.issued →
      (r = .ok () → f'.content = f.content ++ text) →
      Robust (discipline lc) i (k r) Q (some n) s') :
    Robust (discipline lc) i (.op (.writeString tmp text) k) Q (some n) s := by
  intro s₁ h₁ _ ch r l₁ s₂ hex _
  change exec i ch (.writeString tmp text) (some n) s₁ = some (r, l₁, s₂) at hex
  -- whatever gets into the file
  have hstep : ∀ x, Does lc.outputPath i s₁ (appendTo s₁ n x text) ∧
      Holding lc.outputPath i tmp n ⟨f.content ++ x, f.mode, s₁.clock, f.maker, f.due ++ text⟩
        (appendTo s₁ n x text) :=
    fun x => modify_step (h.around h₁) h.maker
  cases ch with
  | ok =>
    cases hex
    exact ⟨(hstep text).1, hk _ _ _ (hstep text).2 h₁.issued fun _ => rfl⟩
  | short m e =>
    cases hex
    exact ⟨(hstep _).1, hk _ _ _ (hstep _).2 h₁.issued fun hr => by cases hr⟩
  | _ => cases hex

theorem robust_chmod (h : Holding lc.outputPath i tmp n f s)
    (hk : ∀ r f' s', Holding lc.outputPath i tmp n f' s' → s.issued ⊆ s'.issued →
      (r = .ok () → f'.content = f.content ∧ f'.mode = mode) →
      Robust (discipline lc) i (k r) Q (some n) s') :
    Robust (discipline lc) i (.op (.chmod tmp mode) k) Q (some n) s := by
  intro s₁ h₁ _ ch r l₁ s₂ hex _
  change exec i ch (.chmod tmp mode) (some n) s₁ = some (r, l₁, s₂) at hex
  have hold := h.around h₁
  cases ch with
  | ok =>
    cases hex
    obtain ⟨hdoes, hold'⟩ := modify_step (g := fun f => { f with mode := mode }) hold h.maker
    exact ⟨hdoes, hk _ _ _ hold' h₁.issued fun _ => ⟨rfl, rfl⟩⟩
  | fail e =>
    cases hex
    exact ⟨.refl _ _ _, hk _ _ _ hold h₁.issued fun hr => by cases hr⟩
  | _ => cases hex

theorem robust_close (h : Holding lc.outputPath i tmp n f s)
    (hk : ∀ r s', Holding lc.outputPath i tmp n f s' → s.issued ⊆ s'.issued →
      Robust (discipline lc) i (k r) Q none s') :
    Robust (discipline lc) i (.op (.close tmp) k) Q l s := by
  intro s₁ h₁ _ ch r l₁ s₂ hex _
  have hold := h.around h₁
  cases ch with
  | ok | fail e =>
    cases hex
    exact ⟨.refl _ _ _, hk _ _ hold h₁.issued⟩
  | _ => cases hex

theorem robust_rename (h : Holding lc.outputPath i tmp n f s) (hdone : Done s.issued f)
    (hok : ∀ l s', Robust (discipline lc) i (k (.ok ())) Q l s')
    (hfail : ∀ e s', Holding lc.outputPath i tmp n f s' →
      Robust (discipline lc) i (k (.error e)) Q l s') :
    Robust (discipline lc) i (.op (.rename tmp lc.outputPath) k) Q l s := by
  intro s₁ h₁ _ ch r l₁ s₂ hex _
  change exec i ch (.rename tmp lc.outputPath) l s₁ = some (r, l₁, s₂) at hex
  have hold := h.around h₁
  cases ch with
  | ok =>
    simp only [exec] at hex
    split at hex
    · next n' hn' =>
      cases hex
      cases hold.name.symm.trans hn'
      exact ⟨publish_step hold ⟨h₁.issued hdone.1, hdone.2⟩, hok _ _⟩
    · next hnone =>
      rw [hold.name] at hnone
      cases hnone
  | fail e =>
    cases hex
    exact ⟨.refl _ _ _, hfail e _ hold⟩
  | _ => cases hex

/-- The temporary file goes, or stays when it cannot be removed. -/
theorem robust_remove (h : Holding lc.outputPath i tmp n f s)
    (hk : ∀ r s', Robust (discipline lc) i (k r) Q l s') :
    Robust (discipline lc) i (.op (.remove tmp) k) Q l s := by
  intro s₁ h₁ _ ch r l₁ s₂ hex _
  change exec i ch (.remove tmp) l s₁ = some (r, l₁, s₂) at hex
  have hold := h.around h₁
  cases ch with
  | ok =>
    simp only [exec, hold.name] at hex
    cases hex
    have hne : lc.outputPath ≠ tmp := hold.hidden.symm
    exact ⟨does_disk (kept_unlink (.inr ⟨n, f, hold.name, hold.file, hold.maker⟩))
      (Directory.names_unlink_of_ne _ hne), hk _ _⟩
  | fail e =>
    cases hex
    exact ⟨.refl _ _ _, hk _ _⟩
  | _ => cases hex

end Programs

/-! ## The loop -/

section Loop

variable {Q : Except Err Unit → Option Nat → Volume → Prop} {token : String} {e : Err}

theorem robust_ret {α : Type} {Q : α → Option Nat → Volume → Prop} {a : α} (hQ : ∀ a l s, Q a l s) :
    Robust (discipline lc) i (.ret a) Q l s := fun _ _ _ => hQ _ _ _

theorem robust_abandon (h : Holding lc.outputPath i tmp n f s) (hQ : ∀ a l s, Q a l s) :
    Robust (discipline lc) i (abandon tmp e) Q l s :=
  robust_remove h fun _ _ => robust_ret hQ

theorem robust_writeTokenAtomic (hpath : ¬ TempLike lc.outputPath) (htoken : token ∈ s.issued)
    (hQ : ∀ a l s, Q a l s) :
    Robust (discipline lc) i (writeTokenAtomic lc.outputPath token) Q l s := by
  refine robust_createTemp hpath (fun e s' => robust_ret hQ) fun tmp n f s₁ h₁ hempty hs₁ => ?_
  refine robust_writeString h₁ fun r₂ f₂ s₂ h₂ hs₂ hwritten => ?_
  cases r₂ with
  | error e => exact robust_close h₂ fun _ _ h _ => robust_abandon h hQ
  | ok u =>
    refine robust_chmod h₂ fun r₃ f₃ s₃ h₃ hs₃ hmode => ?_
    cases r₃ with
    | error e => exact robust_close h₃ fun _ _ h _ => robust_abandon h hQ
    | ok u =>
      refine robust_close h₃ fun r₄ s₄ h₄ hs₄ => ?_
      cases r₄ with
      | error e => exact robust_abandon h₄ hQ
      | ok u =>
        -- the file holds the whole token now
        have hcontent : f₃.content = token := by
          rw [(hmode rfl).1, hwritten rfl, hempty, String.empty_append]
        have hissued : f₃.content ∈ s₄.issued := by
          rw [hcontent]
          exact hs₄ (hs₃ (hs₂ (hs₁ htoken)))
        exact robust_rename h₄ ⟨hissued, (hmode rfl).2⟩ (fun _ _ => robust_ret hQ)
          fun _ _ h => robust_abandon h hQ

theorem robust_token {α : Type} {Q : α → Option Nat → Volume → Prop} {timeout : Duration}
    {k : Except Err Token → Prog BrokerSig α}
    (hfail : ∀ e s', Robust (discipline lc) i (k (.error e)) Q l s')
    (hok : ∀ t s', t.accessToken ∈ s'.issued → Robust (discipline lc) i (k (.ok t)) Q l s') :
    Robust (discipline lc) i (.op (.token timeout) k) Q l s := by
  intro s₁ h₁ _ ch r l₁ s₂ hex _
  cases ch with
  | answer t =>
    cases hex
    exact ⟨does_issue _, hok t _ List.mem_cons_self⟩
  | fail e =>
    cases hex
    exact ⟨.refl _ _ _, hfail e _⟩
  | _ => cases hex

theorem robust_refreshToken {Q : Except Err Token → Option Nat → Volume → Prop}
    (hpath : ¬ TempLike lc.outputPath) (hQ : ∀ a l s, Q a l s) :
    Robust (discipline lc) i (refreshToken lc) Q l s := by
  refine robust_token (fun e s' => robust_ret hQ) fun t s' ht => ?_
  refine Robust.bind (p := writeTokenAtomic lc.outputPath t.accessToken)
    (robust_writeTokenAtomic hpath ht fun r l s => ?_)
  cases r <;> exact robust_ret hQ

theorem quiet_nextRefresh (expiry : Time) (skew least : Duration) :
    (nextRefresh expiry skew least).Only Quiet := by
  unfold nextRefresh
  split
  · trivial
  · exact ⟨trivial, fun _ => trivial⟩

theorem quiet_ctxErr : ctxErr.Only Quiet := ⟨trivial, fun _ => trivial⟩

theorem quiet_sleep (d : Duration) : (sleep d).Only Quiet := ⟨trivial, fun _ => trivial⟩

/-- Apart from the refresh, a turn leaves the volume alone. -/
theorem robust_turn {Q : Option Duration → Option Nat → Volume → Prop}
    (hpath : ¬ TempLike lc.outputPath) (retry : Duration) (hQ : ∀ a l s, Q a l s) :
    Robust (discipline lc) i (turn lc retry) Q l s := by
  refine Robust.bind (p := ctxErr) (robust_quiet quiet_ctxErr fun cancelled l s => ?_)
  cases cancelled with
  | true => exact robust_ret hQ
  | false =>
    refine Robust.bind (p := refreshToken lc) (robust_refreshToken hpath fun r l s => ?_)
    cases r with
    | error e =>
      refine robust_quiet (Prog.Only.bind (p := ctxErr) quiet_ctxErr fun cancelled => ?_) hQ
      cases cancelled with
      | true => trivial
      | false =>
        refine Prog.Only.bind (p := sleep retry) (quiet_sleep retry) fun slept => ?_
        cases slept <;> trivial
    | ok t =>
      refine robust_quiet (Prog.Only.bind (p := nextRefresh t.expiry lc.refreshSkew lc.minRefresh)
        (quiet_nextRefresh _ _ _) fun wait => ?_) hQ
      refine Prog.Only.bind (p := sleep wait) (quiet_sleep wait) fun slept => ?_
      cases slept <;> trivial

theorem robust_loop {Q : Option Nat → Option Nat → Volume → Prop}
    (hpath : ¬ TempLike lc.outputPath) (turns : Nat) (hQ : ∀ a l s, Q a l s) :
    ∀ retry l s, Robust (discipline lc) i (loop lc turns retry) Q l s := by
  induction turns with
  | zero => exact fun _ _ _ => robust_ret hQ
  | succ turns ih =>
    intro retry l s
    refine Robust.bind (p := turn lc retry) (robust_turn hpath retry fun next l s => ?_)
    cases next with
    | none => exact robust_ret hQ
    | some retry' => exact ih retry' l s

end Loop

end Volume

/-! ## Runs -/

section Runs

variable {lc : LoopConfig} {d : Directory} {now : Time} {p q : Pool (machine lc)}

theorem brokers_ok (hpath : ¬ TempLike lc.outputPath) (h : (freshBrokers lc d now).Reaches p) :
    PoolOk (discipline lc) (fun _ _ _ _ _ => True) p :=
  PoolOk.reaches (fun _ _ _ hst => by
      cases hst
      exact robust_loop hpath _ (fun _ _ _ => trivial) _ _ _)
    (fun _ _ => trivial) (PoolOk.empty trivial fun _ => trivial) h trivial

/-- Between any two moments of a run, the token file is replaced by whole
tokens only. -/
theorem later_reaches (hpath : ¬ TempLike lc.outputPath) (h : (freshBrokers lc d now).Reaches p)
    (hpq : p.Reaches q) : Later lc.outputPath p.shared q.shared := by
  have hok : ∀ {a}, p.Reaches a → PoolOk (discipline lc) (fun _ _ _ _ _ => True) a := fun ha =>
    brokers_ok hpath (h.trans ha)
  refine PoolOk.reaches_rel (D := discipline lc) (fun _ => .refl _ _) (fun h h' => h.trans h')
    (fun hdoes => Does.later hdoes) (fun henv => ?_) (fun hstart => ?_) (fun _ => trivial) hok hpq
  · cases henv
    exact ⟨List.Subset.refl _, .inl ⟨rfl, rfl⟩⟩
  · cases hstart
    exact .refl _ _

/-- In every run of any number of brokers, the token file is the one that
was renamed into place last; and it is the very file from before the run,
or holds a whole token that the provider issued, readable by its owner
only. -/
theorem token_file_whole (hpath : ¬ TempLike lc.outputPath)
    (h : (freshBrokers lc d now).Reaches p) {f : File}
    (hf : p.shared.disk.file? lc.outputPath = some f) :
    p.shared.published.head? = some f.content ∧
      (d.file? lc.outputPath = some f ∨ f.content ∈ p.shared.issued ∧ f.mode = 0o600) :=
  (later_reaches hpath .refl h).token_file hf

end Runs

/-! ## A run -/

theorem minute_int64 : IsInt64 (60 * second) := by decide

/-- Brokers on an empty volume, with the defaults of the flags. -/
abbrev sampleBrokers : Pool (machine (sample (60 * second) minute_int64)) :=
  freshBrokers (sample (60 * second) minute_int64) Directory.empty 0

/-- A broker comes up, for so many turns. -/
def starting {lc : LoopConfig} (turns : Nat) : Action (machine lc) := .spawn turns

/-- Broker `i` writes a token. -/
def publishing {lc : LoopConfig} (i : Nat) (token : String) (n : Nat) :
    List (Action (machine lc)) :=
  [.exec i (.flag false), .exec i (.answer ⟨token, 3600 * second⟩), .exec i (.random n),
    .exec i .ok, .exec i .ok, .exec i .ok, .exec i .ok]

/-- The first broker stops in the middle of a write, the second publishes. -/
def tokenWritten : Pool (machine (sample (60 * second) minute_int64)) :=
  sampleBrokers.after
    [[starting 1, .exec 0 (.flag false), .exec 0 (.answer ⟨"jwt-0", 3600 * second⟩),
      .exec 0 (.random 0), .exec 0 (.short 2 (.new "no space left on device")), starting 2],
      publishing 1 "jwt-1" 1].flatten (by decide)

theorem token_file_whole_written :
    ∃ f, tokenWritten.shared.disk.file? "/var/run/berth/token" = some f ∧ f.content = "jwt-1" ∧
      tokenWritten.shared.published.head? = some f.content ∧
      (Directory.empty.file? "/var/run/berth/token" = some f ∨
        f.content ∈ tokenWritten.shared.issued ∧ f.mode = 0o600) := by
  have htext : (tokenWritten.shared.disk.file? "/var/run/berth/token").map File.content =
      some "jwt-1" := by decide
  obtain ⟨f, hf, hcontent⟩ := Option.map_eq_some_iff.mp htext
  have hpath : ¬ TempLike "/var/run/berth/token" := by decide
  exact ⟨f, hf, hcontent, token_file_whole hpath (Pool.reaches_after _) hf⟩

end Berth.Broker
