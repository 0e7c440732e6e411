/-
Berth.Files.Publish — files that are written under a temporary name and
then renamed.

Some names are published: others read what stands under them. A process
makes a file under another name, changes it while it has that name, and
renames it at last. A file is changed by the process that made it and only
while it has its temporary name, and that name is nobody else's, so what
stands under a published name is never changed, only replaced.

`Kept` is what one process does, `Untouched` what another finds done to its
own files. `Whole` says that what is published was finished.
-/
import Berth.Files.Directory

namespace Berth.Files

/-! ## What one process may do to a directory -/

section Definitions

variable (Pub : String → Prop)

/-- Nobody but process `i` changed its files, or what their temporary names
lead to. -/
structure Untouched (i : Nat) (d d' : Directory) : Prop where
  files : ∀ {n : Nat} {f : File}, f.maker = some i →
    (d'.files[n]? = some f ↔ d.files[n]? = some f)
  names : ∀ {name : String} {n : Nat} {f : File}, ¬ Pub name → d.files[n]? = some f →
    f.maker = some i → (d'.names name = some n ↔ d.names name = some n)

/-- A file without a temporary name stays as it is, and without one. -/
def Frozen (d d' : Directory) : Prop :=
  ∀ (n : Nat) (f : File), d.files[n]? = some f → (∀ name, d.names name = some n → Pub name) →
    d'.files[n]? = some f ∧ ∀ name, d'.names name = some n → Pub name

/-- What process `i` did to a directory. -/
structure Kept (i : Nat) (d d' : Directory) : Prop where
  others : ∀ k, k ≠ i → Untouched Pub k d d'
  frozen : Frozen Pub d d'

/-- Under a published name is a file from before, or a finished one. -/
def Whole (Done : String → File → Prop) (d : Directory) : Prop :=
  ∀ {name : String} {n : Nat} {f : File}, Pub name → d.names name = some n →
    d.files[n]? = some f → f.maker = none ∨ Done name f

end Definitions

/-! ## Steps -/

section Steps

variable {Pub : String → Prop} {Done : String → File → Prop} {i n : Nat}
variable {d d' d'' : Directory} {f : File} {tmp dst name : String}

theorem Untouched.refl (i : Nat) (d : Directory) : Untouched Pub i d d :=
  ⟨fun _ => Iff.rfl, fun _ _ _ => Iff.rfl⟩

theorem Untouched.trans (h : Untouched Pub i d d') (h' : Untouched Pub i d' d'') :
    Untouched Pub i d d'' where
  files := fun hf => (h'.files hf).trans (h.files hf)
  names := fun hname hn hf =>
    (h'.names hname ((h.files hf).mpr hn) hf).trans (h.names hname hn hf)

theorem Frozen.refl (d : Directory) : Frozen Pub d d := fun _ _ hn hnames => ⟨hn, hnames⟩

theorem Frozen.trans (h : Frozen Pub d d') (h' : Frozen Pub d' d'') : Frozen Pub d d'' := by
  intro n f hn hnames
  obtain ⟨hn', hnames'⟩ := h n f hn hnames
  exact h' n f hn' hnames'

theorem Kept.refl (i : Nat) (d : Directory) : Kept Pub i d d :=
  ⟨fun k _ => .refl k d, .refl d⟩

/-- What stands under a published name is not changed. -/
theorem Kept.file?_eq (h : Kept Pub i d d') (hname : Pub name)
    (hnames : d'.names name = d.names name) : d'.file? name = d.file? name := by
  refine Directory.file?_congr hnames fun n hn => ?_
  obtain ⟨file, hfile⟩ : ∃ file, d.files[n]? = some file :=
    ⟨_, List.getElem?_eq_getElem (d.bounded hn)⟩
  have hpub : ∀ name', d.names name' = some n → Pub name' := fun name' hn' =>
    d.injective hn hn' ▸ hname
  rw [hfile, (h.frozen n file hfile hpub).1]

/-- A new file under a temporary name. -/
theorem kept_create (h : d.names tmp = none) (hf : f.maker = some i) (htmp : ¬ Pub tmp) :
    Kept Pub i d (d.create tmp f h) where
  others := fun k hk => by
    refine ⟨fun {n f'} hf' => ⟨fun hn => ?_, d.files_create_of_some h⟩,
      fun {name n f'} _ hn _ => ?_⟩
    · rcases d.files_create_cases h hn with hn | ⟨_, rfl⟩
      · exact hn
      · rw [hf, Option.some.injEq] at hf'
        exact absurd hf'.symm hk
    · by_cases hname : name = tmp
      · subst hname
        have hlt := (List.getElem?_eq_some_iff.mp hn).1
        simp only [Directory.names_create_self, h, Option.some.injEq, reduceCtorEq, iff_false]
        omega
      · rw [d.names_create_of_ne h hname]
  frozen := fun n f' hn hnames => by
    refine ⟨d.files_create_of_some h hn, fun name hname => ?_⟩
    by_cases hne : name = tmp
    · subst hne
      have hlt := (List.getElem?_eq_some_iff.mp hn).1
      simp only [Directory.names_create_self, Option.some.injEq] at hname
      omega
    · rw [d.names_create_of_ne h hne] at hname
      exact hnames name hname

theorem whole_create (hd : Whole Pub Done d) (h : d.names tmp = none) (htmp : ¬ Pub tmp) :
    Whole Pub Done (d.create tmp f h) := by
  intro name n f' hname hn hf'
  have hne : name ≠ tmp := fun heq => htmp (heq ▸ hname)
  rw [d.names_create_of_ne h hne] at hn
  rcases d.files_create_cases h hf' with hf' | ⟨rfl, _⟩
  · exact hd hname hn hf'
  · exact absurd (d.bounded hn) (Nat.lt_irrefl _)

/-- A change of a file of its own that has a temporary name. -/
theorem kept_modify {g : File → File} (hname : d.names tmp = some n) (hn : d.files[n]? = some f)
    (hf : f.maker = some i) (hg : (g f).maker = some i) (htmp : ¬ Pub tmp) :
    Kept Pub i d (d.modify n g) where
  others := fun k hk => by
    refine ⟨fun {n' f'} hf' => ?_, fun _ _ _ => Iff.rfl⟩
    by_cases hne : n' = n
    · subst hne
      rw [d.files_modify_self hn, hn, Option.some.injEq, Option.some.injEq]
      constructor
      · rintro rfl
        exact absurd (Option.some.inj (hf'.symm.trans hg)) hk
      · rintro rfl
        exact absurd (Option.some.inj (hf'.symm.trans hf)) hk
    · rw [d.files_modify_of_ne hne]
  frozen := fun n' f' hn' hnames => by
    have hne : n' ≠ n := fun heq => htmp (hnames tmp (heq ▸ hname))
    exact ⟨by rw [d.files_modify_of_ne hne, hn'], hnames⟩

theorem whole_modify {g : File → File} (hd : Whole Pub Done d) (hname : d.names tmp = some n)
    (htmp : ¬ Pub tmp) : Whole Pub Done (d.modify n g) := by
  intro name n' f' hpub hn' hf'
  have hne : n' ≠ n := fun heq => htmp (d.injective hname (heq ▸ hn') ▸ hpub)
  rw [d.files_modify_of_ne hne] at hf'
  exact hd hpub hn' hf'

/-- Removing a published name, or a temporary one of its own. -/
theorem kept_unlink (h : Pub name ∨ ∃ n f, d.names name = some n ∧ d.files[n]? = some f ∧
    f.maker = some i) : Kept Pub i d (d.unlink name) where
  others := fun k hk => by
    refine ⟨fun _ => Iff.rfl, fun {name' n' f'} hname' hn' hf' => ?_⟩
    by_cases hne : name' = name
    · subst hne
      rcases h with h | ⟨n, f, hn, hf, hmaker⟩
      · exact absurd h hname'
      simp only [Directory.names_unlink_self, hn, reduceCtorEq, Option.some.injEq, false_iff]
      rintro rfl
      rw [hn', Option.some.injEq] at hf
      subst hf
      exact hk (Option.some.inj (hf'.symm.trans hmaker))
    · rw [d.names_unlink_of_ne hne]
  frozen := fun n f hn hnames => by
    refine ⟨hn, fun name' hname' => ?_⟩
    by_cases hne : name' = name
    · rw [hne, Directory.names_unlink_self] at hname'
      cases hname'
    · rw [d.names_unlink_of_ne hne] at hname'
      exact hnames name' hname'

theorem whole_unlink (hd : Whole Pub Done d) : Whole Pub Done (d.unlink name) := by
  intro name' n f hpub hn hf
  by_cases hne : name' = name
  · rw [hne, Directory.names_unlink_self] at hn
    cases hn
  · rw [d.names_unlink_of_ne hne] at hn
    exact hd hpub hn hf

/-- Publishing a file of its own. -/
theorem kept_rename (h : d.names tmp = some n) (hn : d.files[n]? = some f)
    (hf : f.maker = some i) (hdst : Pub dst) :
    Kept Pub i d (d.rename tmp dst n h) where
  others := fun k hk => by
    refine ⟨fun _ => Iff.rfl, fun {name n' f'} hname hn' hf' => ?_⟩
    have hne : name ≠ dst := fun heq => hname (heq ▸ hdst)
    by_cases heq : name = tmp
    · subst heq
      rw [d.names_rename_src h hne, h]
      simp only [reduceCtorEq, Option.some.injEq, false_iff]
      rintro rfl
      rw [hn', Option.some.injEq] at hn
      subst hn
      exact hk (Option.some.inj (hf'.symm.trans hf))
    · rw [d.names_rename_of_ne h heq hne]
  frozen := fun n' f' hn' hnames => by
    refine ⟨hn', fun name hname => ?_⟩
    by_cases hne : name = dst
    · exact hne ▸ hdst
    by_cases heq : name = tmp
    · subst heq
      rw [d.names_rename_src h hne] at hname
      cases hname
    · rw [d.names_rename_of_ne h heq hne] at hname
      exact hnames name hname

theorem whole_rename (hd : Whole Pub Done d) (h : d.names tmp = some n) (hn : d.files[n]? = some f)
    (hfin : Done dst f) (htmp : ¬ Pub tmp) : Whole Pub Done (d.rename tmp dst n h) := by
  intro name n' f' hpub hn' hf'
  by_cases hne : name = dst
  · subst hne
    rw [Directory.names_rename_dst, Option.some.injEq] at hn'
    subst hn'
    rw [Directory.files_rename, hn, Option.some.injEq] at hf'
    exact .inr (hf' ▸ hfin)
  · have hne' : name ≠ tmp := fun heq => htmp (heq ▸ hpub)
    rw [d.names_rename_of_ne h hne' hne] at hn'
    exact hd hpub hn' hf'

end Steps

end Berth.Files
