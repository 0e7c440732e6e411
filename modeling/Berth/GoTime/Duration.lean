/-
Berth.GoTime.Duration — durations as text: Go's `Duration.String` and
`time.ParseDuration`.

A duration is a number of nanoseconds. Its text is a sequence of terms, a
decimal number and a unit each: `parse_written` reads such a sequence back
term by term. A fraction is read exactly here, where Go goes through a
`float64`; the texts of whole seconds have none.
-/
import Berth.Lease.Decimal
import Mathlib.Algebra.Group.Int.Defs
import Mathlib.Algebra.Group.Nat.Defs
import Mathlib.Data.List.TakeWhile

namespace Berth.GoTime

open Berth.Lease

/-! ## Printing -/

/-- `fmtFrac`: the last `prec` digits of `v` as a fraction without
trailing zeros, and what is left of `v`. `print` is set once a digit has
been written. -/
def fmtFrac (v : Nat) : Nat → Bool → List Char → List Char × Nat
  | 0, print, out => (if print then '.' :: out else out, v)
  | prec + 1, print, out =>
    let print := print || v % 10 != 0
    fmtFrac (v / 10) prec print (if print then Nat.digitChar (v % 10) :: out else out)

/-- A fraction of one unit, such as `1.5ms`. -/
def fmtUnit (u prec : Nat) (unit : String) : String :=
  let (frac, v) := fmtFrac u prec false []
  toString v ++ String.ofList frac ++ unit

/-- Seconds, with minutes and hours in front where there are any. -/
def fmtSeconds (u : Nat) : String :=
  let (frac, s) := fmtFrac u 9 false []
  (if s / 3600 ≠ 0 then toString (s / 3600) ++ "h" else "") ++
    (if s / 60 ≠ 0 then toString (s / 60 % 60) ++ "m" else "") ++
    toString (s % 60) ++ String.ofList frac ++ "s"

/-- `Duration.String`. -/
def durationString (d : Duration) : String :=
  let u := d.natAbs
  (if d < 0 then "-" else "") ++
    if u = 0 then "0s"
    else if u < 1000 then fmtUnit u 0 "ns"
    else if u < 1000000 then fmtUnit u 3 "µs"
    else if u < 1000000000 then fmtUnit u 6 "ms"
    else fmtSeconds u

/-! ## Parsing -/

/-- `unitMap`. -/
def unitOf : List Char → Option Nat
  | ['n', 's'] => some 1
  | ['u', 's'] => some 1000
  | ['µ', 's'] => some 1000
  | ['μ', 's'] => some 1000
  | ['m', 's'] => some 1000000
  | ['s'] => some 1000000000
  | ['m'] => some 60000000000
  | ['h'] => some 3600000000000
  | _ => none

/-- What a number may be made of. -/
def isNumeric (c : Char) : Bool := c == '.' || c.isDigit

/-- The digits after a point, and what follows them. -/
def fraction : List Char → List Char × List Char
  | '.' :: cs => (cs.takeWhile Char.isDigit, cs.dropWhile Char.isDigit)
  | cs => ([], cs)

/-- One term of a duration: its length, and what follows it. -/
def term (cs : List Char) : Option (Nat × List Char) := do
  let whole := cs.takeWhile Char.isDigit
  let (frac, cs) := fraction (cs.dropWhile Char.isDigit)
  if whole = [] ∧ frac = [] then none
  else
    let unit ← unitOf (cs.takeWhile fun c => !isNumeric c)
    some (Nat.ofDigitChars 10 whole 0 * unit +
        Nat.ofDigitChars 10 frac 0 * unit / 10 ^ frac.length,
      cs.dropWhile fun c => !isNumeric c)

/-- The loop of `time.ParseDuration`; a term takes at least one character. -/
def terms : Nat → List Char → Nat → Option Nat
  | _, [], d => some d
  | 0, _ :: _, _ => none
  | fuel + 1, cs, d => do
    let (v, rest) ← term cs
    if 2 ^ 63 < d + v then none else terms fuel rest (d + v)

/-- `time.ParseDuration` after the sign. -/
def parseUnsigned (cs : List Char) : Option Nat :=
  if cs = ['0'] then some 0 else if cs = [] then none else terms cs.length cs 0

/-- `time.ParseDuration`. -/
def parseDuration (s : String) : Option Duration :=
  match s.toList with
  | '-' :: cs => (parseUnsigned cs).map fun d => -Int.ofNat d
  | '+' :: cs => ((parseUnsigned cs).filter (· < 2 ^ 63)).map Int.ofNat
  | cs => ((parseUnsigned cs).filter (· < 2 ^ 63)).map Int.ofNat

/-! ## Reading terms back -/

/-- The text of a sequence of terms. -/
def written : List (Nat × List Char) → List Char
  | [] => []
  | (n, u) :: ts => Nat.toDigits 10 n ++ (u ++ written ts)

/-- A unit as it may stand in a text. -/
structure IsUnit (u : List Char) (ns : Nat) : Prop where
  value : unitOf u = some ns
  letters : ∀ c ∈ u, isNumeric c = false

/-- The nanoseconds of a sequence of terms. -/
inductive Worth : List (Nat × List Char) → Nat → Prop where
  | nil : Worth [] 0
  | cons {n ns v : Nat} {u : List Char} {ts : List (Nat × List Char)} (unit : IsUnit u ns)
      (rest : Worth ts v) : Worth ((n, u) :: ts) (n * ns + v)

theorem isDigit_toDigits {n : Nat} : ∀ c ∈ Nat.toDigits 10 n, c.isDigit = true :=
  fun _ hc => Nat.isDigit_of_mem_toDigits (by decide) (by decide) hc

theorem isUnit_ne_nil {u : List Char} {ns : Nat} (h : IsUnit u ns) : u ≠ [] := by
  rintro rfl
  cases h.value

theorem written_digit {t : Nat × List Char} {ts : List (Nat × List Char)} :
    ∀ c ∈ (written (t :: ts)).head?, c.isDigit = true := by
  intro c hc
  obtain ⟨d, ds, hd⟩ := List.exists_cons_of_ne_nil (Nat.toDigits_ne_nil (n := t.1) (b := 10))
  rw [written, hd, List.cons_append, List.head?_cons, Option.mem_some_iff] at hc
  exact isDigit_toDigits c (by rw [hd, hc]; exact List.mem_cons_self)

/-- Terms start with a digit. -/
theorem written_head {ts : List (Nat × List Char)} :
    ∀ c ∈ (written ts).head?, isNumeric c = true := by
  intro c hc
  cases ts with
  | nil => cases hc
  | cons t ts => rw [isNumeric, written_digit c hc, Bool.or_true]

theorem takeWhile_append_stop {p : Char → Bool} {pre rest : List Char} (hp : ∀ c ∈ pre, p c = true)
    (hr : ∀ c ∈ rest.head?, p c = false) :
    (pre ++ rest).takeWhile p = pre ∧ (pre ++ rest).dropWhile p = rest := by
  rw [List.takeWhile_append_of_pos hp, List.dropWhile_append_of_pos hp]
  cases rest with
  | nil => simp
  | cons c cs =>
    have hc := hr c rfl
    simp [hc]

/-- A written term is read back, and what follows is left. -/
theorem term_written {n ns : Nat} {u : List Char} {ts : List (Nat × List Char)} (h : IsUnit u ns) :
    term (written ((n, u) :: ts)) = some (n * ns, written ts) := by
  obtain ⟨c, cs, rfl⟩ := List.exists_cons_of_ne_nil (isUnit_ne_nil h)
  have hc : c.isDigit = false ∧ c ≠ '.' := by
    have := h.letters c List.mem_cons_self
    simpa [isNumeric, and_comm] using this
  have hdot : ∀ d ∈ (c :: cs ++ written ts).head?, d.isDigit = false := by simpa using hc.1
  obtain ⟨hwhole, hrest⟩ := takeWhile_append_stop (isDigit_toDigits (n := n)) hdot
  have hfrac : fraction (c :: cs ++ written ts) = ([], c :: cs ++ written ts) := by
    unfold fraction
    split
    · next heq => exact absurd (List.cons.inj heq).1 hc.2
    · rfl
  have hstop : ∀ d ∈ (written ts).head?, (!isNumeric d) = false := by
    intro d hd
    rw [written_head d hd, Bool.not_true]
  obtain ⟨hunit, htail⟩ := takeWhile_append_stop (p := fun d => !isNumeric d)
    (fun d hd => by rw [h.letters d hd, Bool.not_false]) hstop
  have hne : Nat.toDigits 10 n ≠ [] := Nat.toDigits_ne_nil
  simp only [term, written, hwhole, hrest, hfrac, hunit, htail, h.value, hne, false_and, if_false,
    Option.bind_eq_bind, Option.bind_some, Nat.ofDigitChars_ten_toDigits, List.length_nil,
    Nat.ofDigitChars_nil, Nat.zero_mul, Nat.zero_div, Nat.add_zero]

theorem terms_written {ts : List (Nat × List Char)} {v : Nat} (h : Worth ts v) :
    ∀ {fuel d : Nat}, (written ts).length ≤ fuel → d + v ≤ 2 ^ 63 →
      terms fuel (written ts) d = some (d + v) := by
  induction h with
  | nil => intro fuel d _ _; simp [written, terms]
  | @cons n ns v u ts hu hts ih =>
    intro fuel d hfuel hmax
    have hlen : (written ts).length < (written ((n, u) :: ts)).length := by
      simp only [written, List.length_append]
      have : 0 < (Nat.toDigits 10 n).length := List.length_pos_iff.mpr Nat.toDigits_ne_nil
      omega
    obtain ⟨fuel, rfl⟩ : ∃ m, fuel = m + 1 := ⟨fuel - 1, by omega⟩
    obtain ⟨c, cs, hcs⟩ : ∃ c cs, written ((n, u) :: ts) = c :: cs := by
      apply List.exists_cons_of_ne_nil
      intro hnil
      rw [hnil] at hlen
      cases hlen
    have hterm : term (written ((n, u) :: ts)) = some (n * ns, written ts) := term_written hu
    rw [hcs] at hterm ⊢
    rw [terms, hterm, Option.bind_eq_bind, Option.bind_some]
    dsimp only
    rw [if_neg (by omega), ih (by omega) (by omega), Nat.add_assoc]
    intro hcons
    cases hcons

/-- A sequence of terms below the limit is read back as what it is worth. -/
theorem parse_written {s : String} {ts : List (Nat × List Char)} {v : Nat} (h : Worth ts v)
    (hne : ts ≠ []) (hs : s.toList = written ts) (hv : v < 2 ^ 63) :
    parseDuration s = some (v : Int) := by
  obtain ⟨t, ts, rfl⟩ := List.exists_cons_of_ne_nil hne
  obtain ⟨n, u⟩ := t
  cases h with
  | @cons _ ns v _ _ hu hts =>
    have hread := terms_written (Worth.cons (n := n) hu hts) (Nat.le_refl _)
      (d := 0) (by omega)
    have hdigit : ∀ c ∈ s.toList.head?, c.isDigit = true := by
      intro c hc
      rw [hs] at hc
      exact written_digit c hc
    have hzero : s.toList ≠ ['0'] := by
      intro h0
      -- the unit is a second character at least
      have hlen : (written ((n, u) :: ts)).length = 1 := by rw [← hs, h0]; rfl
      have hu1 := List.length_pos_iff.mpr (isUnit_ne_nil hu)
      have hd1 : 0 < (Nat.toDigits 10 n).length := List.length_pos_iff.mpr Nat.toDigits_ne_nil
      simp only [written, List.length_append] at hlen
      omega
    have hnil : s.toList ≠ [] := by
      rw [hs, written]
      exact List.append_ne_nil_of_left_ne_nil Nat.toDigits_ne_nil _
    have hunsigned : parseUnsigned s.toList = some (n * ns + v) := by
      rw [parseUnsigned, if_neg hzero, if_neg hnil, hs, hread, Nat.zero_add]
    unfold parseDuration
    split
    · next heq =>
      have := hdigit '-' (by rw [heq]; rfl)
      exact absurd this (by decide)
    · next heq =>
      have := hdigit '+' (by rw [heq]; rfl)
      exact absurd this (by decide)
    · rw [hunsigned, Option.filter_some, if_pos (by simpa using hv)]
      rfl

/-! ## Whole seconds -/

theorem fmtFrac_zeros (prec v : Nat) : fmtFrac (v * 10 ^ prec) prec false [] = ([], v) := by
  induction prec generalizing v with
  | zero => simp [fmtFrac]
  | succ prec ih =>
    have hmul : v * 10 ^ (prec + 1) = v * 10 ^ prec * 10 := by rw [Nat.pow_succ, Nat.mul_assoc]
    rw [hmul, fmtFrac, Nat.mul_mod_left, Nat.mul_div_cancel _ (by decide)]
    exact ih v

/-- The terms of a whole number of seconds. -/
def secondsTerms (s : Nat) : List (Nat × List Char) :=
  (if s / 3600 ≠ 0 then [(s / 3600, ['h'])] else []) ++
    (if s / 60 ≠ 0 then [(s / 60 % 60, ['m'])] else []) ++ [(s % 60, ['s'])]

theorem fmtSeconds_written (s : Nat) :
    (fmtSeconds (s * 1000000000)).toList = written (secondsTerms s) := by
  have hfrac : fmtFrac (s * 1000000000) 9 false [] = ([], s) := fmtFrac_zeros 9 s
  simp only [fmtSeconds, hfrac, secondsTerms]
  by_cases hh : s / 3600 = 0 <;> by_cases hm : s / 60 = 0 <;>
    simp [hh, hm, written, Nat.toString_eq_repr, Nat.repr]

theorem secondsTerms_worth (s : Nat) : Worth (secondsTerms s) (s * 1000000000) := by
  have hunit : IsUnit ['s'] 1000000000 := ⟨rfl, by simp [isNumeric]⟩
  have hmin : IsUnit ['m'] 60000000000 := ⟨rfl, by simp [isNumeric]⟩
  have hhour : IsUnit ['h'] 3600000000000 := ⟨rfl, by simp [isNumeric]⟩
  have hlast : Worth [(s % 60, ['s'])] (s % 60 * 1000000000 + 0) := .cons hunit .nil
  unfold secondsTerms
  by_cases hh : s / 3600 = 0
  · by_cases hm : s / 60 = 0
    · have hval : s * 1000000000 = s % 60 * 1000000000 + 0 := by omega
      rw [if_neg (not_not.mpr hh), if_neg (not_not.mpr hm), hval]
      exact hlast
    · have hval : s * 1000000000 = s / 60 % 60 * 60000000000 + (s % 60 * 1000000000 + 0) := by omega
      rw [if_neg (not_not.mpr hh), if_pos hm, hval]
      exact .cons hmin hlast
  · have hm : s / 60 ≠ 0 := by omega
    have hval : s * 1000000000 =
        s / 3600 * 3600000000000 + (s / 60 % 60 * 60000000000 + (s % 60 * 1000000000 + 0)) := by
      omega
    rw [if_pos hh, if_pos hm, hval]
    exact .cons hhour (.cons hmin hlast)

theorem durationString_seconds {n : Int} (h : 0 < n) :
    durationString (n * second) = fmtSeconds (n.natAbs * 1000000000) := by
  have habs : (n * second).natAbs = n.natAbs * 1000000000 := Int.natAbs_mul n second
  have hpos : 1 ≤ n.natAbs := by omega
  simp only [durationString, habs]
  rw [if_neg, if_neg (by omega), if_neg (by omega), if_neg (by omega), if_neg (by omega)]
  · simp
  · have : 0 < n * second := Int.mul_pos h (by decide)
    exact Int.not_lt.mpr (Int.le_of_lt this)

/-- A positive whole number of seconds survives its text. -/
theorem parseDuration_seconds {n : Int} (h : 0 < n) (hmax : n * second < 2 ^ 63) :
    parseDuration (durationString (n * second)) = some (n * second) := by
  have hval : n * second = ((n.natAbs * 1000000000 : Nat) : Int) := by
    rw [Int.natCast_mul, Int.natAbs_of_nonneg (Int.le_of_lt h)]
    rfl
  have hlt : n.natAbs * 1000000000 < 2 ^ 63 := by
    rw [hval] at hmax
    exact_mod_cast hmax
  rw [durationString_seconds h, hval]
  refine parse_written (secondsTerms_worth n.natAbs) ?_ (fmtSeconds_written n.natAbs) hlt
  simp [secondsTerms]

example : durationString (90 * second) = "1m30s" := by decide
example : durationString 1500000 = "1.5ms" := by decide
example : parseDuration "1h2m3s" = some (3723 * second) := by decide

end Berth.GoTime
