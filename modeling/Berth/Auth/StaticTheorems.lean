/-
Berth.Auth.StaticTheorems — what a keys file is accepted for, and which
tokens it lets in.

`IsEntry` says what a line `<id>:<hash>` is, without reference to the
parser: the id ends at the first colon. `addLine` accepts exactly blank
lines, comments and entries with a hash that is not taken
(`addLine_ok_iff`), and the loop adds up to the whole file
(`addLines_ok_iff`, `lookup_addLines`).
-/
import Berth.Auth.Static

namespace Berth.Auth

open Berth.Acquire (trimSpace)
open Berth.Lease Berth.Tenant

/-! ## Entries -/

/-- A key: its id and the hash of its token. -/
structure Entry where
  id : String
  hash : String

/-- Who presents the token of the key. -/
def Entry.identity (e : Entry) : Identity := { holder := e.id, tenant := e.id, raw := "" }

/-- The text is `<id>:<hash>`. The separator is the first colon. -/
structure IsEntry (text : String) (e : Entry) : Prop where
  split : ∃ a b : String, text = a ++ ":" ++ b ∧ ':' ∉ a.toList ∧ trimSpace a = e.id ∧
    trimSpace b = e.hash
  id_ne : e.id ≠ ""
  no_slash : '/' ∉ e.id.toList
  length : e.hash.length = 64
  hex : ∀ c ∈ e.hash.toList, c ∈ "0123456789abcdef".toList

/-- What is left of a line that is neither blank nor a comment. -/
def significant (raw : String) : Option String :=
  let text := trimSpace raw
  if text = "" ∨ text.toList.head? = some '#' then none else some text

/-- The texts of a file that have to be entries. A line ends with a newline,
or with a carriage return and a newline. -/
def significantLines (content : String) : List String :=
  ((splitLines content).map fun line => String.ofList (dropCR line)).filterMap significant

/-- Every text that has to be an entry is one, and no hash occurs twice. -/
structure WellFormed (content : String) : Prop where
  entries : ∀ text ∈ significantLines content, ∃ e, IsEntry text e
  distinct : (significantLines content).Pairwise fun t u =>
    ∀ e f, IsEntry t e → IsEntry u f → e.hash ≠ f.hash

/-- The file lists this hash for this id. -/
def Listed (content id hash : String) : Prop :=
  ∃ text ∈ significantLines content, IsEntry text ⟨id, hash⟩

/-! ## Texts -/

theorem splitN2_eq {s a b : String} {sep : Char} :
    splitN2 s sep = [a, b] ↔ s = a ++ String.singleton sep ++ b ∧ sep ∉ a.toList := by
  have happ := List.takeWhile_append_dropWhile (p := (· ≠ sep)) (l := s.toList)
  have hno : sep ∉ s.toList.takeWhile (· ≠ sep) := fun h => by
    simpa using List.mem_takeWhile_imp h
  constructor
  · intro h
    unfold splitN2 at h
    split at h
    · simp at h
    rename_i c back hdrop
    simp only [List.cons.injEq, and_true] at h
    obtain ⟨rfl, rfl⟩ := h
    have hc : c = sep := by
      have hhead := List.head?_dropWhile_not (p := (· ≠ sep)) s.toList
      rw [hdrop] at hhead
      simpa using hhead
    subst hc
    rw [hdrop] at happ
    refine ⟨?_, by rwa [String.toList_ofList]⟩
    rw [← String.toList_inj]
    simpa using happ.symm
  · rintro ⟨rfl, hsep⟩
    have hall : ∀ c ∈ a.toList, decide (c ≠ sep) = true := by
      intro c hc
      simp only [decide_eq_true_eq]
      rintro rfl
      exact hsep hc
    have htext : (a ++ String.singleton sep ++ b).toList = a.toList ++ sep :: b.toList := by
      simp [String.toList_append]
    simp only [splitN2, htext, List.dropWhile_append_of_pos hall, List.takeWhile_append_of_pos hall]
    simp

theorem validateTenant_ok_iff {tenant : String} :
    validateTenant tenant = .ok () ↔ '/' ∉ tenant.toList := by
  simp [validateTenant]

theorem splitN2_length (s : String) (sep : Char) :
    (∃ a, splitN2 s sep = [a]) ∨ ∃ a b, splitN2 s sep = [a, b] := by
  unfold splitN2
  split
  · exact .inl ⟨_, rfl⟩
  · exact .inr ⟨_, _, rfl⟩

theorem isLowerHex_iff {c : Char} : isLowerHex c = true ↔ c ∈ "0123456789abcdef".toList := by
  constructor
  · intro h
    have hrange : 48 ≤ c.toNat ∧ c.toNat ≤ 57 ∨ 97 ≤ c.toNat ∧ c.toNat ≤ 102 := by
      simpa [isLowerHex, Char.le_def, UInt32.le_iff_toNat_le] using h
    have hnat : c.toNat ∈ "0123456789abcdef".toList.map Char.toNat := by
      simp
      omega
    obtain ⟨d, hd, heq⟩ := List.mem_map.mp hnat
    rwa [← Char.toNat_inj.mp heq]
  · intro h
    have hall : ∀ d ∈ "0123456789abcdef".toList, isLowerHex d = true := by simp [isLowerHex]
    exact hall c h

theorem utf8ByteSize_ofList_cons (c : Char) (cs : List Char) :
    (String.ofList (c :: cs)).utf8ByteSize = c.utf8Size + (String.ofList cs).utf8ByteSize := by
  have hcons : String.ofList (c :: cs) = String.singleton c ++ String.ofList cs := by
    rw [← String.toList_inj]
    simp
  rw [hcons, String.utf8ByteSize_append, String.utf8ByteSize_singleton]

/-- A text of one-byte characters has as many bytes as characters. -/
theorem utf8ByteSize_of_ascii {cs : List Char} (h : ∀ c ∈ cs, c.utf8Size = 1) :
    (String.ofList cs).utf8ByteSize = cs.length := by
  induction cs with
  | nil => rfl
  | cons c cs ih =>
    rw [List.forall_mem_cons] at h
    rw [utf8ByteSize_ofList_cons, h.1, ih h.2, List.length_cons, Nat.add_comm]

theorem validHex256_iff {s : String} :
    validHex256 s = true ↔ s.length = 64 ∧ ∀ c ∈ s.toList, c ∈ "0123456789abcdef".toList := by
  have hone : ∀ d ∈ "0123456789abcdef".toList, d.utf8Size = 1 := by
    simp [Char.utf8Size_eq_one_iff]
  have hsize (h : ∀ c ∈ s.toList, c ∈ "0123456789abcdef".toList) : s.utf8ByteSize = s.length := by
    have := utf8ByteSize_of_ascii fun c hc => hone c (h c hc)
    rwa [String.ofList_toList, String.length_toList] at this
  simp only [validHex256, Bool.and_eq_true, beq_iff_eq, List.all_eq_true, isLowerHex_iff]
  constructor
  · rintro ⟨hbytes, hhex⟩
    exact ⟨hsize hhex ▸ hbytes, hhex⟩
  · rintro ⟨hlen, hhex⟩
    exact ⟨(hsize hhex).trans hlen, hhex⟩

/-! ## Lines -/

/-- An entry, in terms of the parser's split. -/
theorem isEntry_iff_split {text : String} {e : Entry} :
    IsEntry text e ↔ ∃ a b, splitN2 text ':' = [a, b] ∧ trimSpace a = e.id ∧ trimSpace b = e.hash ∧
      e.id ≠ "" ∧ '/' ∉ e.id.toList ∧ validHex256 e.hash = true := by
  constructor
  · rintro ⟨⟨a, b, htext, ha, hid, hhash⟩, hne, hslash, hlen, hhex⟩
    exact ⟨a, b, splitN2_eq.mpr ⟨htext, ha⟩, hid, hhash, hne, hslash,
      validHex256_iff.mpr ⟨hlen, hhex⟩⟩
  · rintro ⟨a, b, hsplit, hid, hhash, hne, hslash, hvalid⟩
    obtain ⟨htext, ha⟩ := splitN2_eq.mp hsplit
    obtain ⟨hlen, hhex⟩ := validHex256_iff.mp hvalid
    exact ⟨⟨a, b, htext, ha, hid, hhash⟩, hne, hslash, hlen, hhex⟩

theorem IsEntry.unique {text : String} {e f : Entry} (he : IsEntry text e) (hf : IsEntry text f) :
    e = f := by
  obtain ⟨a, b, h, hid, hhash, -⟩ := isEntry_iff_split.mp he
  obtain ⟨a', b', h', hid', hhash', -⟩ := isEntry_iff_split.mp hf
  rw [h, List.cons.injEq, List.cons.injEq] at h'
  obtain ⟨rfl, rfl, -⟩ := h'
  rcases e with ⟨id, hash⟩
  rcases f with ⟨id', hash'⟩
  simp only [Entry.mk.injEq]
  exact ⟨hid.symm.trans hid', hhash.symm.trans hhash'⟩

variable {path raw : String} {line : Nat} {keys keys' : Keys}

theorem hasPrefix_hash {text : String} :
    Path.hasPrefix text "#" = true ↔ text.toList.head? = some '#' := by
  unfold Path.hasPrefix
  cases text.toList with
  | nil => decide
  | cons c cs =>
    simp only [List.head?_cons, Option.some.injEq]
    constructor
    · intro h
      have : '#' = c := by simpa using h
      exact this.symm
    · rintro rfl
      rfl

theorem significant_none_iff : significant raw = none ↔
    trimSpace raw = "" ∨ Path.hasPrefix (trimSpace raw) "#" = true := by
  simp only [significant, hasPrefix_hash, ite_eq_left_iff, reduceCtorEq, imp_false, not_not]

theorem significant_some {text : String} (h : significant raw = some text) :
    trimSpace raw = text := by
  unfold significant at h
  dsimp only at h
  split at h
  · cases h
  · exact Option.some.inj h

theorem addLine_skip (h : significant raw = none) : addLine path line raw keys = .ok keys :=
  if_pos (significant_none_iff.mp h)

/-- A text that has to be an entry is added if it is one whose hash is
free, and refused otherwise. -/
theorem addLine_significant {text : String} (h : significant raw = some text) :
    addLine path line raw keys = .ok keys' ↔
      ∃ e, IsEntry text e ∧ keys.lookup e.hash = none ∧ keys' = keys ++ [(e.hash, e.identity)] := by
  have hnot : ¬ (trimSpace raw = "" ∨ Path.hasPrefix (trimSpace raw) "#" = true) := by
    rw [← significant_none_iff, h]
    exact Option.some_ne_none text
  have htext := significant_some h
  subst htext
  unfold addLine
  dsimp only
  rw [if_neg hnot]
  simp only [isEntry_iff_split]
  rcases splitN2_length (trimSpace raw) ':' with ⟨a, hsplit⟩ | ⟨a, b, hsplit⟩
  · simp [hsplit]
  simp only [hsplit]
  constructor
  · intro hok
    split at hok
    · cases hok
    rename_i hid
    split at hok
    · cases hok
    rename_i htenant
    split at hok
    · cases hok
    rename_i hvalid
    split at hok
    · cases hok
    rename_i hfree
    refine ⟨⟨trimSpace a, trimSpace b⟩, ⟨a, b, rfl, rfl, rfl, hid, ?_, ?_⟩, ?_, ?_⟩
    · exact validateTenant_ok_iff.mp htenant
    · exact Bool.of_not_eq_false hvalid
    · exact Option.not_isSome_iff_eq_none.mp hfree
    · exact (Except.ok.inj hok).symm
  · rintro ⟨⟨id, hash⟩, ⟨a', b', heq, rfl, rfl, hid, hslash, hvalid⟩, hfree, rfl⟩
    simp only [List.cons.injEq, and_true] at heq
    obtain ⟨rfl, rfl⟩ := heq
    have htenant := validateTenant_ok_iff.mpr hslash
    simp only [htenant, hvalid, hfree]
    exact if_neg hid

/-! ## Files -/

theorem lookup_added {h hash : String} {id : Identity} :
    (keys ++ [(h, id)]).lookup hash =
      (keys.lookup hash).or (if hash = h then some id else none) := by
  rw [List.lookup_append, List.lookup_cons, List.lookup_nil]
  by_cases heq : hash = h
  · simp [heq]
  · rw [beq_eq_false_iff_ne.mpr heq, if_neg heq]

/-- The loop succeeds when every text is an entry with a free hash, and no
two of them share one. -/
theorem addLines_ok_iff {raws : List String} :
    (∃ keys', addLines path line raws keys = .ok keys') ↔
      (∀ text ∈ raws.filterMap significant, ∃ e, IsEntry text e ∧ keys.lookup e.hash = none) ∧
      (raws.filterMap significant).Pairwise fun t u =>
        ∀ e f, IsEntry t e → IsEntry u f → e.hash ≠ f.hash := by
  induction raws generalizing line keys with
  | nil => simp [addLines]
  | cons raw rest ih =>
    cases hsig : significant raw with
    | none => simp only [addLines, addLine_skip hsig, List.filterMap_cons_none hsig, ih]
    | some text =>
      rw [List.filterMap_cons_some hsig, List.pairwise_cons, List.forall_mem_cons]
      constructor
      · rintro ⟨keys', h⟩
        unfold addLines at h
        split at h
        · cases h
        rename_i added hadd
        obtain ⟨e, he, hfree, rfl⟩ := (addLine_significant hsig).mp hadd
        obtain ⟨hrest, hpair⟩ := ih.mp ⟨keys', h⟩
        refine ⟨⟨⟨e, he, hfree⟩, ?_⟩, ?_, hpair⟩
        · intro u hu
          obtain ⟨f, hf, hlook⟩ := hrest u hu
          rw [lookup_added, Option.or_eq_none_iff] at hlook
          exact ⟨f, hf, hlook.1⟩
        · intro u hu e' f he' hf
          obtain ⟨f', hf', hlook⟩ := hrest u hu
          rw [lookup_added, Option.or_eq_none_iff] at hlook
          rw [he'.unique he, hf.unique hf']
          intro heq
          simp [heq] at hlook
      · rintro ⟨⟨⟨e, he, hfree⟩, hrest⟩, hdist, hpair⟩
        have hadd : addLine path (line + 1) raw keys = .ok (keys ++ [(e.hash, e.identity)]) :=
          (addLine_significant hsig).mpr ⟨e, he, hfree, rfl⟩
        unfold addLines
        rw [hadd]
        refine ih.mpr ⟨?_, hpair⟩
        intro u hu
        obtain ⟨f, hf, hlook⟩ := hrest u hu
        refine ⟨f, hf, ?_⟩
        have hne : f.hash ≠ e.hash := (hdist u hu e f he hf).symm
        rw [lookup_added, hlook, if_neg hne]
        rfl

/-- After the loop a hash has the identity of its entry, or the one it had
before. -/
theorem lookup_addLines {raws : List String} (h : addLines path line raws keys = .ok keys')
    (hash : String) (id : Identity) :
    keys'.lookup hash = some id ↔ keys.lookup hash = some id ∨
      ∃ text ∈ raws.filterMap significant, ∃ e, IsEntry text e ∧ e.hash = hash ∧ e.identity = id := by
  induction raws generalizing line keys with
  | nil =>
    cases h
    simp
  | cons raw rest ih =>
    unfold addLines at h
    cases hsig : significant raw with
    | none =>
      rw [addLine_skip hsig] at h
      rw [List.filterMap_cons_none hsig, ih h]
    | some text =>
      split at h
      · cases h
      rename_i added hadd
      obtain ⟨e, he, hfree, rfl⟩ := (addLine_significant hsig).mp hadd
      rw [List.filterMap_cons_some hsig, ih h, List.exists_mem_cons_iff, ← or_assoc]
      refine or_congr_left ?_
      rw [lookup_added]
      constructor
      · intro hlook
        by_cases heq : hash = e.hash
        · subst heq
          rw [hfree, if_pos rfl] at hlook
          exact .inr ⟨e, he, rfl, Option.some.inj hlook⟩
        · rw [if_neg heq, Option.or_none] at hlook
          exact .inl hlook
      · rintro (hlook | ⟨f, hf, rfl, rfl⟩)
        · rw [hlook]
          rfl
        · rw [hf.unique he, hfree, if_pos rfl]
          rfl

theorem scan_of_fits {content : String} (h : ∀ line ∈ splitLines content, fits line = true) :
    scan ⟨content, none⟩ =
      ((splitLines content).map fun line => String.ofList (dropCR line), none) := by
  have hall : (splitLines content).all fits = true := List.all_eq_true.mpr h
  unfold scan
  dsimp only
  rw [List.takeWhile_eq_self_iff.mpr h, if_pos hall]

theorem loadKeysFile_of_scan {file : File} {texts : List String} (h : scan file = (texts, none)) :
    loadKeysFile path (.ok file) = addLines path 0 texts [] := by
  simp only [loadKeysFile, h]
  generalize addLines path 0 texts [] = result
  cases result with
  | error e => rfl
  | ok keys => rfl

theorem loadKeysFile_of_fits {content : String} (h : ∀ line ∈ splitLines content, fits line = true) :
    loadKeysFile path (.ok ⟨content, none⟩) =
      addLines path 0 ((splitLines content).map fun line => String.ofList (dropCR line)) [] :=
  loadKeysFile_of_scan (scan_of_fits h)

/-- A file whose lines fit is loaded if and only if it is well formed. -/
theorem loadKeysFile_ok_iff {content : String} (h : ∀ line ∈ splitLines content, fits line = true) :
    (∃ keys, loadKeysFile path (.ok ⟨content, none⟩) = .ok keys) ↔ WellFormed content := by
  rw [loadKeysFile_of_fits h, addLines_ok_iff, ← significantLines]
  constructor
  · rintro ⟨hentries, hdistinct⟩
    refine ⟨?_, hdistinct⟩
    intro text htext
    obtain ⟨e, he, -⟩ := hentries text htext
    exact ⟨e, he⟩
  · rintro ⟨hentries, hdistinct⟩
    refine ⟨?_, hdistinct⟩
    intro text htext
    obtain ⟨e, he⟩ := hentries text htext
    exact ⟨e, he, rfl⟩

/-- The keys of a loaded file are the hashes it lists. -/
theorem lookup_loadKeysFile {content : String} (h : ∀ line ∈ splitLines content, fits line = true)
    (hload : loadKeysFile path (.ok ⟨content, none⟩) = .ok keys) (hash : String) (ident : Identity) :
    keys.lookup hash = some ident ↔
      ∃ id, Listed content id hash ∧ ident = { holder := id, tenant := id, raw := "" } := by
  rw [loadKeysFile_of_fits h] at hload
  rw [lookup_addLines hload, ← significantLines]
  constructor
  · rintro (hnil | ⟨text, htext, ⟨id, hash'⟩, he, rfl, rfl⟩)
    · cases hnil
    · exact ⟨id, ⟨text, htext, he⟩, rfl⟩
  · rintro ⟨id, ⟨text, htext, he⟩, rfl⟩
    exact .inr ⟨text, htext, ⟨id, hash⟩, he, rfl, rfl⟩

theorem Listed.no_slash {content id hash : String} (h : Listed content id hash) :
    '/' ∉ id.toList := by
  obtain ⟨text, -, he⟩ := h
  exact he.no_slash

/-! ## Authentication and reloads -/

namespace StaticAuthenticator

variable {a : StaticAuthenticator} {hashToken : String → String} {token : String}

theorem authenticate_ok_iff (htoken : token ≠ "") {ident : Identity} :
    a.authenticate hashToken token = .ok ident ↔
      a.keys.lookup (hashToken token) = some ident ∧ '/' ∉ ident.tenant.toList := by
  rw [authenticate, if_neg htoken]
  cases hlook : a.keys.lookup (hashToken token) with
  | none => simp
  | some id =>
    by_cases hslash : '/' ∈ id.tenant.toList
    · simp only [validateTenant, if_pos hslash, reduceCtorEq, Option.some.injEq, false_iff, not_and]
      rintro rfl hnot
      exact hnot hslash
    · simp only [validateTenant, if_neg hslash, Except.ok.injEq, Option.some.injEq]
      constructor
      · rintro rfl
        exact ⟨rfl, hslash⟩
      · exact fun h => h.1

/-- The authenticator after a sequence of reloads, each of which finds the
file in the given state. -/
def reloads (a : StaticAuthenticator) (files : List (Except Err File)) : StaticAuthenticator :=
  files.foldl (fun a opened => (a.reload opened).1) a

theorem reload_ok {opened : Except Err File} {keys : Keys} (hpath : a.filePath ≠ "")
    (h : loadKeysFile a.filePath opened = .ok keys) :
    a.reload opened = ({ a with keys := keys }, none) := by
  unfold reload load
  rw [if_neg hpath, h]

/-- A reload that does not load the file leaves everything as it was. -/
theorem reload_failed {opened : Except Err File}
    (h : ¬ (a.filePath ≠ "" ∧ ∃ keys, loadKeysFile a.filePath opened = .ok keys)) :
    ∃ e, a.reload opened = (a, some e) := by
  unfold reload load
  by_cases hpath : a.filePath = ""
  · exact ⟨_, by rw [if_pos hpath]⟩
  rw [if_neg hpath]
  cases hload : loadKeysFile a.filePath opened with
  | error e => exact ⟨e, rfl⟩
  | ok keys => exact absurd ⟨hpath, keys, hload⟩ h

theorem reload_none_iff {opened : Except Err File} :
    (a.reload opened).2 = none ↔
      a.filePath ≠ "" ∧ ∃ keys, loadKeysFile a.filePath opened = .ok keys := by
  constructor
  · intro hnone
    by_contra h
    obtain ⟨e, he⟩ := reload_failed h
    rw [he] at hnone
    cases hnone
  · rintro ⟨hpath, keys, hload⟩
    rw [reload_ok hpath hload]

/-- An authenticator is made of the file at a path, if it can be loaded. -/
theorem ofKeysFile_ok_iff {path : String} {opened : Except Err File} :
    ofKeysFile path opened = .ok a ↔
      path ≠ "" ∧ ∃ keys, loadKeysFile path opened = .ok keys ∧ a = ⟨keys, path⟩ := by
  unfold ofKeysFile
  by_cases hpath : path = ""
  · simp [hpath]
  rw [if_neg hpath]
  cases hload : loadKeysFile path opened with
  | ok keys =>
    rw [reload_ok (a := ⟨[], path⟩) hpath hload]
    simp [hpath, eq_comm]
  | error e =>
    obtain ⟨e', he⟩ : ∃ e', reload ⟨[], path⟩ opened = (⟨[], path⟩, some e') :=
      reload_failed (by simp [hload])
    rw [he]
    simp

end StaticAuthenticator

/-- The key sets that a file at `path` gives when it is found in these
states one after the other; no path, no keys. -/
def loaded (path : String) (files : List (Except Err File)) : List Keys :=
  if path = "" then [] else files.filterMap fun opened => (loadKeysFile path opened).toOption

namespace StaticAuthenticator

theorem reloads_eq (a : StaticAuthenticator) (files : List (Except Err File)) :
    a.reloads files = { a with keys := (loaded a.filePath files).getLastD a.keys } := by
  induction files generalizing a with
  | nil => simp [reloads, loaded]
  | cons opened files ih =>
    have hstep : a.reloads (opened :: files) = (a.reload opened).1.reloads files := rfl
    by_cases h : a.filePath ≠ "" ∧ ∃ keys, loadKeysFile a.filePath opened = .ok keys
    · obtain ⟨hpath, keys, hload⟩ := h
      rw [hstep, reload_ok hpath hload, ih]
      simp only [loaded, if_neg hpath, List.filterMap_cons, hload, Except.toOption,
        List.getLastD_cons]
    · obtain ⟨e, he⟩ := reload_failed h
      rw [hstep, he, ih]
      -- the file of a failed reload adds nothing
      have hsame : loaded a.filePath (opened :: files) = loaded a.filePath files := by
        unfold loaded
        split
        · rfl
        rename_i hpath
        cases hload : loadKeysFile a.filePath opened with
        | ok keys => exact absurd ⟨hpath, keys, hload⟩ h
        | error e => simp [hload, Except.toOption]
      rw [hsame]

end StaticAuthenticator

/-- The keys file is parsed exactly: which files are loaded, what their keys
are, whom a token authenticates, which files make an authenticator, and what
a sequence of reloads leaves: the keys of the last file that could be
loaded. -/
theorem keys_file_exact (hashToken : String → String) (path content : String)
    (hfits : ∀ line ∈ splitLines content, fits line = true) :
    ((∃ keys, loadKeysFile path (.ok ⟨content, none⟩) = .ok keys) ↔ WellFormed content) ∧
      (∀ keys, loadKeysFile path (.ok ⟨content, none⟩) = .ok keys →
        (∀ hash ident, keys.lookup hash = some ident ↔
          ∃ id, Listed content id hash ∧ ident = { holder := id, tenant := id, raw := "" }) ∧
        ∀ token, token ≠ "" → ∀ ident,
          StaticAuthenticator.authenticate hashToken ⟨keys, path⟩ token = .ok ident ↔
            ∃ id, Listed content id (hashToken token) ∧
              ident = { holder := id, tenant := id, raw := "" }) ∧
      (∀ opened a, StaticAuthenticator.ofKeysFile path opened = .ok a ↔
        path ≠ "" ∧ ∃ keys, loadKeysFile path opened = .ok keys ∧ a = ⟨keys, path⟩) ∧
      ∀ (a : StaticAuthenticator) (files : List (Except Err File)),
        (a.reloads files).keys = (loaded a.filePath files).getLastD a.keys ∧
          ∀ opened,
            (((a.reloads files).reload opened).2 = none ↔
              a.filePath ≠ "" ∧ ∃ keys, loadKeysFile a.filePath opened = .ok keys) ∧
            (∀ keys, a.filePath ≠ "" → loadKeysFile a.filePath opened = .ok keys →
              ((a.reloads files).reload opened).1.keys = keys) ∧
            ∀ e, ((a.reloads files).reload opened).2 = some e →
              ((a.reloads files).reload opened).1.keys =
                (loaded a.filePath files).getLastD a.keys := by
  refine ⟨loadKeysFile_ok_iff hfits, ?_, fun _ _ => StaticAuthenticator.ofKeysFile_ok_iff, ?_⟩
  · intro keys hload
    have hlookup := lookup_loadKeysFile hfits hload
    refine ⟨hlookup, ?_⟩
    intro token htoken ident
    rw [StaticAuthenticator.authenticate_ok_iff htoken, hlookup]
    constructor
    · exact fun h => h.1
    · rintro ⟨id, hlisted, rfl⟩
      exact ⟨⟨id, hlisted, rfl⟩, hlisted.no_slash⟩
  · intro a files
    have hkeys : (a.reloads files).keys = (loaded a.filePath files).getLastD a.keys := by
      rw [StaticAuthenticator.reloads_eq]
    have hpath : (a.reloads files).filePath = a.filePath := by rw [StaticAuthenticator.reloads_eq]
    rw [← hkeys, ← hpath]
    generalize a.reloads files = b
    refine ⟨rfl, ?_⟩
    intro opened
    refine ⟨StaticAuthenticator.reload_none_iff, ?_, ?_⟩
    · intro keys hpath hload
      rw [StaticAuthenticator.reload_ok hpath hload]
    · intro e hfail
      have hne : (b.reload opened).2 ≠ none := by simp [hfail]
      have h := mt StaticAuthenticator.reload_none_iff.mpr hne
      obtain ⟨e', he⟩ := StaticAuthenticator.reload_failed h
      rw [he]

def sampleHash : String := String.ofList (List.replicate 64 'a')

/-- A file with a comment, a blank line and one key. -/
def sampleFile : String := "# keys\n\n team-a : " ++ sampleHash ++ "\r\n"

/-- The sample file is loaded; a reload that then finds a broken one keeps
its key. -/
theorem keys_file_exact_sample :
    WellFormed sampleFile ∧
      (∃ id, Listed sampleFile id sampleHash ∧
        (⟨"team-a", "team-a", ""⟩ : Identity) = ⟨id, id, ""⟩) ∧
      ((⟨[], "keys"⟩ : StaticAuthenticator).reloads
        [.ok ⟨sampleFile, none⟩, .ok ⟨"team-a", none⟩]).keys =
          [(sampleHash, ⟨"team-a", "team-a", ""⟩)] := by
  have hload : loadKeysFile "keys" (.ok ⟨sampleFile, none⟩) =
      .ok [(sampleHash, ⟨"team-a", "team-a", ""⟩)] := by decide
  have h := keys_file_exact (fun _ => sampleHash) "keys" sampleFile (by decide)
  refine ⟨h.1.mp ⟨_, hload⟩, ((h.2.1 _ hload).2 "token" (by decide) _).mp (by decide), ?_⟩
  rw [(h.2.2.2 _ _).1]
  decide

end Berth.Auth
