/-
Berth.Json.Text — JSON values as text.

`render` is the compact text of `encoding/json`: no spaces, and in strings
the characters that HTML gives a meaning are escaped too. `parse` reads
JSON as the standard has it: any space between tokens, any escape, half a
surrogate pair as the replacement character. Text is a list of characters,
so that bytes which are no text do not occur.

The parser takes its fuel from the length of the text. `Reads` is what it
is proved with: a text that is read as a value, whatever follows, as long
as it does not continue a number.
-/
import Berth.Json.Value

namespace Berth.Json

/-! ## Characters -/

def isSpace (c : Char) : Bool := c = ' ' || c = '\t' || c = '\n' || c = '\r'

def isDigit (c : Char) : Bool := '0' ≤ c && c ≤ '9'

def hexDigit (d : Nat) : Char :=
  if d % 16 < 10 then Char.ofNat ('0'.toNat + d % 16) else Char.ofNat ('a'.toNat + (d % 16 - 10))

def hexValue? (c : Char) : Option Nat :=
  if '0' ≤ c ∧ c ≤ '9' then some (c.toNat - '0'.toNat)
  else if 'a' ≤ c ∧ c ≤ 'f' then some (c.toNat - 'a'.toNat + 10)
  else if 'A' ≤ c ∧ c ≤ 'F' then some (c.toNat - 'A'.toNat + 10)
  else none

/-- `\uXXXX`. -/
def escapeHex (n : Nat) : List Char :=
  ['\\', 'u', hexDigit (n / 4096), hexDigit (n / 256), hexDigit (n / 16), hexDigit n]

/-- One character inside a string. -/
def escape (c : Char) : List Char :=
  if c = '"' then ['\\', '"']
  else if c = '\\' then ['\\', '\\']
  else if c = '\x08' then ['\\', 'b']
  else if c = '\x0c' then ['\\', 'f']
  else if c = '\n' then ['\\', 'n']
  else if c = '\r' then ['\\', 'r']
  else if c = '\t' then ['\\', 't']
  else if c.toNat < 0x20 ∨ c = '<' ∨ c = '>' ∨ c = '&' ∨ c.toNat = 0x2028 ∨ c.toNat = 0x2029 then
    escapeHex c.toNat
  else [c]

/-- The character of a short escape. -/
def unescape? (c : Char) : Option Char :=
  if c = '"' ∨ c = '\\' ∨ c = '/' then some c
  else if c = 'b' then some '\x08'
  else if c = 'f' then some '\x0c'
  else if c = 'n' then some '\n'
  else if c = 'r' then some '\r'
  else if c = 't' then some '\t'
  else none

/-- Four hexadecimal digits. -/
def hex4? : List Char → Option (Nat × List Char)
  | a :: b :: c :: d :: rest =>
    match hexValue? a, hexValue? b, hexValue? c, hexValue? d with
    | some a, some b, some c, some d => some (a * 4096 + b * 256 + c * 16 + d, rest)
    | _, _, _, _ => none
  | _ => none

def isSurrogate (n : Nat) : Bool := 0xD800 ≤ n && n < 0xE000

/-- A pair of surrogates. -/
def surrogates? (hi lo : Nat) : Option Char :=
  if 0xD800 ≤ hi ∧ hi < 0xDC00 ∧ 0xDC00 ≤ lo ∧ lo < 0xE000 then
    some (Char.ofNat ((hi - 0xD800) * 1024 + (lo - 0xDC00) + 0x10000))
  else none

/-- What follows the first half of a pair. -/
def secondHalf? (hi : Nat) : List Char → Option (Char × List Char)
  | '\\' :: 'u' :: cs =>
    match hex4? cs with
    | some (lo, rest) => (surrogates? hi lo).map fun c => (c, rest)
    | none => none
  | _ => none

/-- The next character of a string, which is not over. -/
def stringChar? : List Char → Option (Char × List Char)
  | [] => none
  | c :: cs =>
    if c = '\\' then
      match cs with
      | [] => none
      | e :: cs =>
        if e = 'u' then
          match hex4? cs with
          | none => none
          | some (n, rest) =>
            if isSurrogate n then
              match secondHalf? n rest with
              | some x => some x
              | none => some ('�', rest)
            else some (Char.ofNat n, rest)
        else (unescape? e).map fun c => (c, cs)
    else if c.toNat < 0x20 then none
    else some (c, cs)

/-! ## Text of a value -/

def renderString (s : String) : List Char := '"' :: (s.toList.flatMap escape ++ ['"'])

mutual

def render : Value → List Char
  | .null => "null".toList
  | .bool true => "true".toList
  | .bool false => "false".toList
  | .num literal => literal.toList
  | .str s => renderString s
  | .arr items => '[' :: (renderItems items ++ [']'])
  | .obj fields => '{' :: (renderFields fields ++ ['}'])

def renderItems : List Value → List Char
  | [] => []
  | [v] => render v
  | v :: v' :: vs => render v ++ ',' :: renderItems (v' :: vs)

def renderFields : List (String × Value) → List Char
  | [] => []
  | [f] => renderString f.1 ++ ':' :: render f.2
  | f :: f' :: fs => renderString f.1 ++ ':' :: (render f.2 ++ ',' :: renderFields (f' :: fs))

end

/-! ## Value of a text -/

def skipSpace (cs : List Char) : List Char := cs.dropWhile isSpace

/-- The rest of a string, after its opening quote. -/
def stringRest? : Nat → List Char → Option (List Char × List Char)
  | 0, _ => none
  | n + 1, cs =>
    if cs.head? = some '"' then some ([], cs.tail)
    else
      match stringChar? cs with
      | none => none
      | some (c, cs) => (stringRest? n cs).map fun x => (c :: x.1, x.2)

def string? (n : Nat) (cs : List Char) : Option (String × List Char) :=
  if cs.head? = some '"' then (stringRest? n cs.tail).map fun x => (String.ofList x.1, x.2)
  else none

/-- At least one digit. -/
def digits? (cs : List Char) : Option (List Char × List Char) :=
  if cs.takeWhile isDigit = [] then none
  else some (cs.takeWhile isDigit, cs.dropWhile isDigit)

/-- The digits before the point: none but one may begin with a zero. -/
def integer? (cs : List Char) : Option (List Char × List Char) :=
  if cs.head? = some '0' then some (['0'], cs.tail) else digits? cs

/-- The point and what follows it, if it is there. -/
def decimals? (cs : List Char) : Option (List Char × List Char) :=
  if cs.head? = some '.' then (digits? cs.tail).map fun x => ('.' :: x.1, x.2) else some ([], cs)

def exponent? (cs : List Char) : Option (List Char × List Char) :=
  match cs with
  | e :: rest =>
    if e = 'e' ∨ e = 'E' then
      match rest with
      | sign :: rest' =>
        if sign = '+' ∨ sign = '-' then (digits? rest').map fun x => (e :: sign :: x.1, x.2)
        else (digits? rest).map fun x => (e :: x.1, x.2)
      | [] => none
    else some ([], cs)
  | [] => some ([], cs)

def number? (cs : List Char) : Option (Value × List Char) := do
  let (sign, cs) := if cs.head? = some '-' then (['-'], cs.tail) else ([], cs)
  let (int, cs) ← integer? cs
  let (dec, cs) ← decimals? cs
  let (exp, cs) ← exponent? cs
  some (.num (String.ofList (sign ++ int ++ dec ++ exp)), cs)

/-- One of the three literals. -/
def word? (w : List Char) (v : Value) (cs : List Char) : Option (Value × List Char) :=
  if w <+: cs then some (v, cs.drop w.length) else none

mutual

/-- The value at the beginning of a text, and what follows it. -/
def value? : Nat → List Char → Option (Value × List Char)
  | 0, _ => none
  | n + 1, cs =>
    match skipSpace cs with
    | [] => none
    | c :: cs =>
      if c = '[' then
        if (skipSpace cs).head? = some ']' then some (.arr [], (skipSpace cs).tail)
        else (items? n cs).map fun x => (.arr x.1, x.2)
      else if c = '{' then
        if (skipSpace cs).head? = some '}' then some (.obj [], (skipSpace cs).tail)
        else (fields? n cs).map fun x => (.obj x.1, x.2)
      else if c = '"' then (string? n (c :: cs)).map fun x => (.str x.1, x.2)
      else if c = 'n' then word? "null".toList .null (c :: cs)
      else if c = 't' then word? "true".toList (.bool true) (c :: cs)
      else if c = 'f' then word? "false".toList (.bool false) (c :: cs)
      else number? (c :: cs)

/-- The items of an array, with the bracket that ends it. -/
def items? : Nat → List Char → Option (List Value × List Char)
  | 0, _ => none
  | n + 1, cs =>
    match value? n cs with
    | none => none
    | some (v, cs) =>
      match skipSpace cs with
      | [] => none
      | c :: cs =>
        if c = ',' then (items? n cs).map fun x => (v :: x.1, x.2)
        else if c = ']' then some ([v], cs)
        else none

/-- The fields of an object, with the brace that ends it. -/
def fields? : Nat → List Char → Option (List (String × Value) × List Char)
  | 0, _ => none
  | n + 1, cs =>
    match string? n (skipSpace cs) with
    | none => none
    | some (k, cs) =>
      match skipSpace cs with
      | [] => none
      | c :: cs =>
        if c = ':' then
          match value? n cs with
          | none => none
          | some (v, cs) =>
            match skipSpace cs with
            | [] => none
            | c :: cs =>
              if c = ',' then (fields? n cs).map fun x => ((k, v) :: x.1, x.2)
              else if c = '}' then some ([(k, v)], cs)
              else none
        else none

end

/-- The first value of a text, and the text after it. -/
def parse (cs : List Char) : Option (Value × List Char) := value? (cs.length + 1) cs

/-! ## Reading what was written: strings -/

theorem hexValue?_hexDigit (d : Nat) : hexValue? (hexDigit d) = some (d % 16) := by
  have h : ∀ d < 16, hexValue? (if d < 10 then Char.ofNat ('0'.toNat + d)
      else Char.ofNat ('a'.toNat + (d - 10))) = some d := by decide
  exact h (d % 16) (Nat.mod_lt d (by decide))

theorem hex4?_escapeHex {n : Nat} (h : n < 65536) (rest : List Char) :
    hex4? ((escapeHex n).drop 2 ++ rest) = some (n, rest) := by
  simp only [escapeHex, List.drop_succ_cons, List.drop_zero, List.cons_append, List.nil_append,
    hex4?, hexValue?_hexDigit, Option.some.injEq, Prod.mk.injEq, and_true]
  omega

theorem stringChar?_escapeHex {c : Char} (h : c.toNat < 0xD800) (rest : List Char) :
    stringChar? (escapeHex c.toNat ++ rest) = some (c, rest) := by
  have hhex := hex4?_escapeHex (show c.toNat < 65536 by omega) rest
  have hsur : isSurrogate c.toNat = false := by
    simp only [isSurrogate, Bool.and_eq_false_iff, decide_eq_false_iff_not]
    omega
  simp only [escapeHex, List.drop_succ_cons, List.drop_zero, List.cons_append,
    List.nil_append] at hhex
  simp only [escapeHex, List.cons_append, List.nil_append, stringChar?, if_true, hhex, hsur,
    Bool.false_eq_true, if_false, Char.ofNat_toNat]

/-- A character is read back, and never looks like the end of the string. -/
theorem stringChar?_escape (c : Char) (rest : List Char) :
    stringChar? (escape c ++ rest) = some (c, rest) ∧ (escape c ++ rest).head? ≠ some '"' := by
  unfold escape
  -- the seven characters with an escape of their own
  iterate 7
    split
    · next h => subst h; exact ⟨rfl, by simp⟩
  split
  · next h =>
    refine ⟨stringChar?_escapeHex ?_ rest, by simp [escapeHex]⟩
    rcases h with h | rfl | rfl | rfl | h | h
    · omega
    · decide
    · decide
    · decide
    · omega
    · omega
  · next hquote hslash _ _ _ _ _ h =>
    have hctl : ¬ c.toNat < 0x20 := fun hlt => h (.inl hlt)
    exact ⟨by simp [stringChar?, hslash, hctl], by simpa using hquote⟩

theorem stringRest?_escape {n : Nat} {s : List Char} (h : s.length < n) (rest : List Char) :
    stringRest? n (s.flatMap escape ++ '"' :: rest) = some (s, rest) := by
  induction s generalizing n with
  | nil =>
    obtain _ | n := n
    · simp at h
    simp [stringRest?]
  | cons c s ih =>
    obtain _ | n := n
    · omega
    have hlen : s.length < n := by simpa using h
    obtain ⟨hchar, hquote⟩ := stringChar?_escape c (s.flatMap escape ++ '"' :: rest)
    rw [List.flatMap_cons, List.append_assoc, stringRest?, if_neg hquote, hchar]
    simp only [ih hlen, Option.map_some]

theorem string?_renderString {n : Nat} {s : String} (h : s.length < n) (rest : List Char) :
    string? n (renderString s ++ rest) = some (s, rest) := by
  have hlen : s.toList.length < n := by rwa [String.length_toList]
  simp only [string?, renderString, List.cons_append, List.head?_cons, if_true, List.tail_cons,
    List.append_assoc, List.nil_append, stringRest?_escape hlen, Option.map_some,
    String.ofList_toList]

/-! ## Reading what was written: numbers -/

/-- The text that follows does not continue a number. -/
def Ends (rest : List Char) : Prop :=
  ∀ c, rest.head? = some c → isDigit c = false ∧ c ≠ '.' ∧ c ≠ 'e' ∧ c ≠ 'E'

/-- A literal that is read back as it stands, and is nothing else. -/
structure Literal (l : String) : Prop where
  number : ∀ rest, Ends rest → number? (l.toList ++ rest) = some (.num l, rest)
  first : ∃ c cs, l.toList = c :: cs ∧ (c = '-' ∨ isDigit c = true)

theorem ends_nil : Ends [] := by
  intro c h
  simp at h

theorem ends_cons {c : Char} {rest : List Char} (hdig : isDigit c = false)
    (hc : c ≠ '.' ∧ c ≠ 'e' ∧ c ≠ 'E') : Ends (c :: rest) := by
  intro c' h
  cases h
  exact ⟨hdig, hc⟩

theorem digits?_append {ds rest : List Char} (hne : ds ≠ []) (hds : ∀ c ∈ ds, isDigit c = true)
    (hrest : Ends rest) : digits? (ds ++ rest) = some (ds, rest) := by
  have htake : rest.takeWhile isDigit = [] ∧ rest.dropWhile isDigit = rest := by
    cases rest with
    | nil => simp
    | cons c rest => simp [(hrest c rfl).1]
  have htw : (ds ++ rest).takeWhile isDigit = ds := by
    rw [List.takeWhile_append_of_pos hds, htake.1, List.append_nil]
  have hdw : (ds ++ rest).dropWhile isDigit = rest := by
    rw [List.dropWhile_append_of_pos hds, htake.2]
  rw [digits?, htw, hdw, if_neg hne]

/-- Nothing but a zero begins with a zero. -/
def NoLeadingZero (ds : List Char) : Prop := ds.head? = some '0' → ds = ['0']

theorem integer?_append {ds rest : List Char} (hne : ds ≠ []) (hds : ∀ c ∈ ds, isDigit c = true)
    (hzero : NoLeadingZero ds) (hrest : Ends rest) : integer? (ds ++ rest) = some (ds, rest) := by
  have hhead : (ds ++ rest).head? = ds.head? := by
    cases ds with
    | nil => exact absurd rfl hne
    | cons => rfl
  rw [integer?, hhead]
  split
  · next h =>
    rw [hzero h]
    rfl
  · exact digits?_append hne hds hrest

theorem decimals?_ends {rest : List Char} (h : Ends rest) : decimals? rest = some ([], rest) := by
  rw [decimals?, if_neg fun hdot => (h '.' hdot).2.1 rfl]

theorem exponent?_ends {rest : List Char} (h : Ends rest) : exponent? rest = some ([], rest) := by
  cases rest with
  | nil => rfl
  | cons c rest =>
    have hc := (h c rfl).2.2
    simp [exponent?, hc.1, hc.2]

/-- A whole number, with its sign. -/
def integerText (negative : Bool) (ds : List Char) : List Char :=
  if negative then '-' :: ds else ds

theorem literal_integer (negative : Bool) {ds : List Char} (hne : ds ≠ [])
    (hds : ∀ c ∈ ds, isDigit c = true) (hzero : NoLeadingZero ds) :
    Literal (String.ofList (integerText negative ds)) := by
  obtain ⟨d, ds', rfl⟩ := List.exists_cons_of_ne_nil hne
  have hd : isDigit d = true := hds d List.mem_cons_self
  have hsign : d ≠ '-' := by
    rintro rfl
    exact absurd hd (by decide)
  refine ⟨fun rest hrest => ?_, ?_⟩
  · have hint := integer?_append hne hds hzero hrest
    rw [List.cons_append] at hint
    cases negative
    · simp [integerText, number?, hsign, hint, decimals?_ends hrest, exponent?_ends hrest]
    · simp [integerText, number?, hint, decimals?_ends hrest, exponent?_ends hrest]
  · cases negative
    · exact ⟨d, ds', by simp [integerText], .inr hd⟩
    · exact ⟨'-', d :: ds', by simp [integerText], .inl rfl⟩

theorem isDigit_of_mem_toDigits {n : Nat} {c : Char} (h : c ∈ Nat.toDigits 10 n) :
    isDigit c = true := by
  have hc := Nat.isDigit_of_mem_toDigits (by decide) (by decide) h
  simpa [isDigit, Char.isDigit, Char.le_def] using hc

theorem toDigits_noLeadingZero (n : Nat) : NoLeadingZero (Nat.toDigits 10 n) := by
  induction n using Nat.strongRecOn with
  | ind n ih =>
    intro h
    rw [Nat.toDigits_eq_if (by decide)] at h ⊢
    split at h
    · next hlt =>
      rw [if_pos hlt]
      simpa using h
    · next hge =>
      -- the leading digit is that of the number without its last one, which is not zero
      have hpos : 0 < n / 10 := by omega
      have hne : Nat.toDigits 10 (n / 10) ≠ [] := Nat.toDigits_ne_nil
      rw [List.head?_append_of_ne_nil _ hne] at h
      have hten := ih (n / 10) (by omega) h
      have hval := Nat.ofDigitChars_ten_toDigits (n := n / 10)
      rw [hten] at hval
      simp [Nat.ofDigitChars] at hval
      omega

/-! ## Reading what was written: values -/

/-- A value all of whose numbers are literals. -/
inductive Written : Value → Prop where
  | null : Written .null
  | bool (b : Bool) : Written (.bool b)
  | num {l : String} (h : Literal l) : Written (.num l)
  | str (s : String) : Written (.str s)
  | arr {items : List Value} (h : ∀ v ∈ items, Written v) : Written (.arr items)
  | obj {fields : List (String × Value)} (h : ∀ f ∈ fields, Written f.2) : Written (.obj fields)

/-- A value is read from its text, with fuel for its length. -/
def Reads (v : Value) : Prop :=
  ∀ n rest, (render v).length < n → Ends rest → value? n (render v ++ rest) = some (v, rest)

theorem skipSpace_cons {c : Char} {cs : List Char} (h : isSpace c = false) :
    skipSpace (c :: cs) = c :: cs := by
  simp [skipSpace, h]

theorem length_le_renderString (s : String) : s.length + 2 ≤ (renderString s).length := by
  have hlen : ∀ cs : List Char, cs.length ≤ (cs.flatMap escape).length := by
    intro cs
    induction cs with
    | nil => simp
    | cons c cs ih =>
      have hpos : 0 < (escape c).length := by
        rw [List.length_pos_iff]
        intro hnil
        simpa [hnil, stringChar?] using (stringChar?_escape c []).1
      simp only [List.flatMap_cons, List.length_append, List.length_cons]
      omega
  have h := hlen s.toList
  rw [String.length_toList] at h
  simp only [renderString, List.length_cons, List.length_append, List.length_nil]
  omega

theorem isSpace_eq_false {c : Char} (h : c = '-' ∨ isDigit c = true) : isSpace c = false := by
  cases hs : isSpace c with
  | false => rfl
  | true =>
    simp only [isSpace, Bool.or_eq_true, decide_eq_true_eq] at hs
    rcases hs with ((rfl | rfl) | rfl) | rfl <;> exact absurd h (by decide)

/-- A text begins where its value does, and not as an array ends. -/
theorem render_first {v : Value} (h : Written v) :
    ∃ c cs, render v = c :: cs ∧ isSpace c = false ∧ c ≠ ']' := by
  cases h with
  | null => exact ⟨'n', "ull".toList, by decide⟩
  | bool b =>
    cases b with
    | true => exact ⟨'t', "rue".toList, by decide⟩
    | false => exact ⟨'f', "alse".toList, by decide⟩
  | num h =>
    obtain ⟨c, cs, hl, hc⟩ := h.first
    refine ⟨c, cs, hl, isSpace_eq_false hc, ?_⟩
    rintro rfl
    exact absurd hc (by decide)
  | str s => exact ⟨'"', _, rfl, by decide⟩
  | arr => exact ⟨'[', _, rfl, by decide⟩
  | obj => exact ⟨'{', _, rfl, by decide⟩

theorem reads_num {l : String} (h : Literal l) : Reads (.num l) := by
  intro n rest hn hrest
  obtain _ | n := n
  · omega
  obtain ⟨c, cs, hl, hc⟩ := h.first
  have hnum := h.number rest hrest
  have hother : c ≠ '[' ∧ c ≠ '{' ∧ c ≠ '"' ∧ c ≠ 'n' ∧ c ≠ 't' ∧ c ≠ 'f' := by
    refine ⟨?_, ?_, ?_, ?_, ?_, ?_⟩
    all_goals
      rintro rfl
      exact absurd hc (by decide)
  obtain ⟨h1, h2, h3, h4, h5, h6⟩ := hother
  rw [hl, List.cons_append] at hnum
  simp only [render, hl, List.cons_append, value?,
    skipSpace_cons (isSpace_eq_false hc), h1, h2, h3, h4, h5, h6, if_false, hnum]

theorem reads_str (s : String) : Reads (.str s) := by
  intro n rest hn _
  obtain _ | n := n
  · omega
  have hlen := length_le_renderString s
  have hstring := string?_renderString (n := n) (s := s) (by rw [render] at hn; omega) rest
  simp only [renderString, List.cons_append, List.append_assoc, List.nil_append] at hstring
  simp [render, renderString, value?, skipSpace, isSpace, hstring]

theorem items?_renderItems {items : List Value} (hne : items ≠ []) (hread : ∀ v ∈ items, Reads v)
    (hw : ∀ v ∈ items, Written v) {n : Nat} (hn : (renderItems items).length + 1 < n)
    (rest : List Char) : items? n (renderItems items ++ ']' :: rest) = some (items, rest) := by
  induction items generalizing n with
  | nil => exact absurd rfl hne
  | cons v items ih =>
    obtain _ | n := n
    · omega
    have hv := hread v List.mem_cons_self
    cases items with
    | nil =>
      have hval := hv n (']' :: rest) (by rw [renderItems] at hn; omega)
        (ends_cons (by decide) (by decide))
      simp only [renderItems, items?, hval]
      simp [skipSpace, isSpace]
    | cons v' items =>
      rw [renderItems, List.length_append, List.length_cons] at hn
      have hlen : 0 < (render v).length := by
        obtain ⟨c, cs, hcs, _⟩ := render_first (hw v List.mem_cons_self)
        simp [hcs]
      have hval := hv n (',' :: (renderItems (v' :: items) ++ ']' :: rest)) (by omega)
        (ends_cons (by decide) (by decide))
      have hitems := ih (by simp) (fun w h => hread w (List.mem_cons_of_mem v h))
        (fun w h => hw w (List.mem_cons_of_mem v h)) (n := n) (by omega)
      rw [renderItems, List.append_assoc, List.cons_append, items?, hval]
      simp [skipSpace, isSpace, hitems]

theorem fields?_renderFields {fields : List (String × Value)} (hne : fields ≠ [])
    (hread : ∀ f ∈ fields, Reads f.2) {n : Nat} (hn : (renderFields fields).length + 1 < n)
    (rest : List Char) : fields? n (renderFields fields ++ '}' :: rest) = some (fields, rest) := by
  induction fields generalizing n with
  | nil => exact absurd rfl hne
  | cons f fields ih =>
    obtain _ | n := n
    · omega
    have hv := hread f List.mem_cons_self
    have hkey := length_le_renderString f.1
    have hskip : ∀ cs, skipSpace (renderString f.1 ++ cs) = renderString f.1 ++ cs := by
      intro cs
      simp [renderString, skipSpace, isSpace]
    cases fields with
    | nil =>
      simp only [renderFields, List.length_append, List.length_cons] at hn
      have hval := hv n ('}' :: rest) (by omega) (ends_cons (by decide) (by decide))
      simp only [renderFields, List.append_assoc, List.cons_append, fields?, hskip,
        string?_renderString (n := n) (s := f.1) (by omega)]
      simp [skipSpace_cons, isSpace, hval]
    | cons f' fields =>
      simp only [renderFields, List.length_append, List.length_cons] at hn
      have hval := hv n (',' :: (renderFields (f' :: fields) ++ '}' :: rest)) (by omega)
        (ends_cons (by decide) (by decide))
      have hfields := ih (by simp) (fun w hw => hread w (List.mem_cons_of_mem f hw)) (n := n)
        (by omega)
      simp only [renderFields, List.append_assoc, List.cons_append, fields?, hskip,
        string?_renderString (n := n) (s := f.1) (by omega)]
      simp [skipSpace_cons, isSpace, hval, hfields]

theorem reads_null : Reads .null := by
  intro n rest hn _
  obtain _ | n := n
  · omega
  · simp [render, value?, skipSpace, isSpace, word?]

theorem reads_bool (b : Bool) : Reads (.bool b) := by
  intro n rest hn _
  obtain _ | n := n
  · omega
  · cases b <;> simp [render, value?, skipSpace, isSpace, word?]

theorem reads_arr {items : List Value} (h : ∀ v ∈ items, Written v) (ih : ∀ v ∈ items, Reads v) :
    Reads (.arr items) := by
  intro n rest hn _
  obtain _ | n := n
  · omega
  cases items with
  | nil => simp [render, renderItems, value?, skipSpace, isSpace]
  | cons v items =>
    rw [render, List.length_cons, List.length_append, List.length_singleton] at hn
    have hitems := items?_renderItems (List.cons_ne_nil v items) ih h (n := n) (by omega) rest
    have hfirst : ∃ c cs, renderItems (v :: items) ++ ']' :: rest = c :: cs ∧
        isSpace c = false ∧ c ≠ ']' := by
      obtain ⟨c, cs, hcs, hc⟩ := render_first (h v List.mem_cons_self)
      cases items <;> exact ⟨c, _, by rw [renderItems, hcs]; rfl, hc⟩
    obtain ⟨c, cs, hcs, hspace, hc⟩ := hfirst
    rw [hcs] at hitems
    have htext : render (.arr (v :: items)) ++ rest = '[' :: c :: cs := by
      rw [← hcs, render, List.cons_append, List.append_assoc, List.singleton_append]
    rw [htext, value?, skipSpace_cons (by decide)]
    simp [skipSpace_cons hspace, hc, hitems]

theorem reads_obj {fields : List (String × Value)} (ih : ∀ f ∈ fields, Reads f.2) :
    Reads (.obj fields) := by
  intro n rest hn _
  obtain _ | n := n
  · omega
  cases fields with
  | nil => simp [render, renderFields, value?, skipSpace, isSpace]
  | cons f fields =>
    rw [render, List.length_cons, List.length_append, List.length_singleton] at hn
    have hfields := fields?_renderFields (List.cons_ne_nil f fields) ih (n := n) (by omega) rest
    have hfirst : ∃ cs, renderFields (f :: fields) ++ '}' :: rest = '"' :: cs := by
      cases fields <;> exact ⟨_, by rw [renderFields, renderString]; rfl⟩
    obtain ⟨cs, hcs⟩ := hfirst
    rw [hcs] at hfields
    have htext : render (.obj (f :: fields)) ++ rest = '{' :: '"' :: cs := by
      rw [← hcs, render, List.cons_append, List.append_assoc, List.singleton_append]
    rw [htext, value?, skipSpace_cons (by decide)]
    simp [skipSpace_cons, isSpace, hfields]

theorem reads {v : Value} (h : Written v) : Reads v := by
  induction h with
  | null => exact reads_null
  | bool b => exact reads_bool b
  | num h => exact reads_num h
  | str s => exact reads_str s
  | arr h ih => exact reads_arr h ih
  | obj h ih => exact reads_obj ih

/-- What was written is read back, whatever follows it. -/
theorem parse_render {v : Value} (h : Written v) {rest : List Char} (hrest : Ends rest) :
    parse (render v ++ rest) = some (v, rest) := by
  refine reads h _ rest ?_ hrest
  rw [List.length_append]
  omega

end Berth.Json
